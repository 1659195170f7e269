import SensorCache.Proofs.CommandLine.Openings

/-!
# What is shown after a refresh

Calls of the program, one after another: a refresh reports what became of its job, and what another
call then shows of a cache is what the cache remembers, which are all the units that were stored so
far and the offerings that were stored last. Coordinates are shown as they read back.
-/

namespace SensorCache

open Disk Time

variable {d e : Disk} {lookup : String → Option String} (time : Instant → String)
  {args : List String} {turns : Nat} {i : Invocation} {named : Option Path} {w : Workspace}
  {us : List UnitMapping} {os : List Offering}

namespace Program

/-! ## Refreshes -/

/-- A command that does not fail leaves its stage. -/
theorem run_begin_invoke {s : Stage} {f : Disk} (hargs : Request.read? args = some (.invoke i))
    (hopen : (Workspace.openFor lookup i).run d = (.ok w, e))
    (hperform : (perform w time .zero .utc i.command).run e = (.ok s, f)) :
    (begin lookup time .zero .utc args).run d = (s, f) := by
  have hbegun : (do perform (← Workspace.openFor lookup i) time .zero .utc i.command :
      Attempt CommandFailure Stage).outcome.run d = (.ok s, f) :=
    (Attempt.run_bind_ok hopen).trans hperform
  rw [begin, hargs]
  show (invoke lookup time .zero .utc i).run d = _
  rw [invoke, Routine.run_bind, hbegun]
  rfl

/-- A refresh starts a scheduler that has the one job. -/
theorem run_perform_refresh (h : w.Stands lookup named d us os) :
    ∃ settings : ScheduleSettings, ∃ monitor : MonitorSettings, 0 < monitor.delay.nanos ∧
      (perform w time .zero .utc .refresh).run d =
        (.ok (.refreshing (.launched (.new w.caches.lock monitor true) () settings .zero .utc
          (w.caches.targets w.source.unitMappings w.source.offerings) d.clock)), d) := by
  obtain ⟨settings, hsettings, hdelay⟩ := Configuration.scheduleSettings_of_load h.configuration
  refine ⟨{ settings with updateOnStartup := false }, settings.monitor, hdelay, ?_⟩
  have hhaving : (Workspace.having w.configuration.scheduleSettings).run d = (.ok settings, d) := by
    rw [hsettings]
    rfl
  have hstart := Scheduler.run_start_of_missing (.new w.caches.lock settings.monitor true) () .zero
    .utc (w.caches.targets w.source.unitMappings w.source.offerings) h.caches.free
    (show { settings with updateOnStartup := false }.updateOnStartup = false from rfl)
  exact (Attempt.run_bind_ok hhaving).trans (Attempt.run_bind_ok (Attempt.run_always_ok hstart))

/-- What a refresh reports, and how everything then stands. -/
theorem simulate_refresh (hturns : 0 < turns) (hargs : Request.read? args = some (.invoke i))
    (hcommand : i.command = .refresh) (hopen : (Workspace.openFor lookup i).run d = (.ok w, e))
    (h : w.Stands lookup i.config e us os) :
    ∃ o us' os' f, simulate turns lookup time args d = ((JobEnd.outcome o).report, f) ∧
      w.caches.Refreshes w.source e f us os o us' os' ∧ w.Stands lookup i.config f us' os' := by
  obtain ⟨settings, monitor, hdelay, hperform⟩ := run_perform_refresh time h
  obtain ⟨base, -, hcaches, -⟩ := Workspace.openFor_eq_ok hopen
  have hstands := h.caches
  rw [hcaches] at hstands hperform
  obtain ⟨o, us', os', f, hfinish, hrefreshes, hstands', helse⟩ := hstands.finish_launched w.source
    settings .zero .utc e.clock hturns hdelay
  refine ⟨o, us', os', f, ?_, hcaches ▸ hrefreshes, h.elsewhere helse (hcaches ▸ hstands')⟩
  rw [simulate, run_begin_invoke time hargs hopen (hcommand ▸ hperform)]
  exact hfinish

/-! ## Showing -/

theorem simulate_print {f : Disk} {kind : MetadataKind} {lines : List String}
    (hargs : Request.read? args = some (.invoke i)) (hcommand : i.command = .print kind)
    (hopen : (Workspace.openFor lookup i).run d = (.ok w, e))
    (hprinted : (w.printed kind).run e = (.ok lines, f)) :
    simulate turns lookup time args d = (⟨0, lines, []⟩, f) := by
  have hperform : (perform w time .zero .utc i.command).run e =
      (.ok (.ended ⟨0, lines, []⟩), f) := by
    rw [hcommand]
    exact Attempt.run_bind_ok (Attempt.run_because_ok hprinted)
  rw [simulate, run_begin_invoke time hargs hopen hperform]
  rfl

/-- A call that shows entities prints what the cache of that kind remembers. -/
theorem shows {m : Disk} {kind : MetadataKind} {P : List String → Prop}
    (hopen : (Workspace.openFor lookup i).run d = (.ok w, m)) (h : w.Stands lookup named e us os)
    (hargs : Request.read? args = some (.invoke ⟨named, none, .print kind⟩))
    (hprinted : ∀ {f}, w.caches.Stands f us os →
      ∃ lines, (w.printed kind).run f = (.ok lines, f) ∧ P lines) :
    ∃ lines, P lines ∧ ∀ turns time, (simulate turns lookup time args e).1 = ⟨0, lines, []⟩ := by
  obtain ⟨g, hg, hstands⟩ := h.run_openFor hopen (.print kind)
  obtain ⟨lines, hrun, hlines⟩ := hprinted hstands.caches
  have hrun' : ({ w with log := none }.printed kind).run g = (.ok lines, g) := hrun
  exact ⟨lines, hlines, fun turns time => congrArg Prod.fst (simulate_print time hargs rfl hg hrun')⟩

theorem shows_units {m : Disk} (hopen : (Workspace.openFor lookup i).run d = (.ok w, m))
    (h : w.Stands lookup named e us os)
    (hargs : Request.read? args = some (.invoke ⟨named, none, .print .unitMappings⟩))
    (hus : us ≠ []) : ∃ lines, EntityCache.Printed us lines ∧
      ∀ turns time, (simulate turns lookup time args e).1 = ⟨0, lines, []⟩ := by
  refine shows hopen h hargs fun {f} hstands => ?_
  obtain ⟨lines, hrun, hlines⟩ :=
    hstands.units.run_entityLines (Workspace.siblings_of_openFor hopen).1 hus
  rw [Record.filterMap_readBack? fun _ _ => trivial] at hlines
  exact ⟨lines, hrun, hlines⟩

theorem shows_offerings {m : Disk} (hopen : (Workspace.openFor lookup i).run d = (.ok w, m))
    (h : w.Stands lookup named e us os)
    (hargs : Request.read? args = some (.invoke ⟨named, none, .print .offerings⟩))
    (hos : os ≠ []) : ∃ lines, EntityCache.Printed (os.filterMap Record.readBack?) lines ∧
      ∀ turns time, (simulate turns lookup time args e).1 = ⟨0, lines, []⟩ :=
  shows hopen h hargs fun hstands =>
    hstands.offerings.run_entityLines (Workspace.siblings_of_openFor hopen).2 hos

/-! ## A sample -/

/-- A configuration, an empty cache directory for it, and an export with one unit mapping and one
offering. -/
def sample : Disk where
  nodes := [
    (["config.yaml"], .file
      "source:\n  identity: gauges\n  snapshot_dir: export\ncache:\n  directory: caches\n".toUTF8 ⟨1⟩),
    (["caches"], .directory ⟨1⟩),
    (["caches", "34ed013fe6a6a4739c39a5ed0121f6866bee050821eb0499b24c60ac3fc8a97a"], .directory ⟨1⟩),
    (["export"], .directory ⟨1⟩),
    (["export", "unit_mappings.json"], .file
      "[\x7b\"phenomenon\":\"depth\",\"unit\":\"m\"\x7d]".toUTF8 ⟨1⟩),
    (["export", "offerings.jsonl"], .file
      ("\x7b\"identifier\":\"o\",\"envelope\":\x7b\"srid\":4326," ++
        "\"lower_corner\":[15.1108404364360390,7.5],\"upper_corner\":[7.5,7.5]\x7d\x7d\n").toUTF8 ⟨1⟩)]
  here := []
  clock := ⟨5⟩

def sampleConfiguration : Configuration where
  identity := "gauges"
  exportDir := ⟨"export"⟩
  directory := some ⟨"caches"⟩

/-- What the commands work with. -/
def sampleWorkspace : Workspace where
  configuration := sampleConfiguration
  caches := .inDirectory (CacheRegistry.directoryFor ⟨"caches"⟩ "gauges") (.ofSeconds 900)
  source := ⟨⟨"export"⟩⟩
  log := none

def sampleUnit : UnitMapping := ⟨"depth", "m"⟩

/-- An offering with a corner at `x`. -/
def offeringAt (x : Double) : Offering :=
  let y : Double :=
    ⟨false, 8444249301319680, -50, by decide, by decide, by decide, .inl (by decide)⟩
  ⟨"o", none, [], .empty, [], none, some ⟨4326, ⟨x, y⟩, ⟨y, y⟩, by decide⟩⟩

/-- A number whose text is read as the next one. -/
def drifting : Double :=
  ⟨false, 8506646919848546, -49, by decide, by decide, by decide, .inl (by decide)⟩

def drifted : Double :=
  ⟨false, 8506646919848547, -49, by decide, by decide, by decide, .inl (by decide)⟩

theorem load_sample : (Configuration.load (fun _ => none) (some ⟨"config.yaml"⟩)).run sample =
    (.ok sampleConfiguration, sample) := by
  refine Configuration.load_eq_ok.mpr ⟨⟨"config.yaml"⟩,
    "source:\n  identity: gauges\n  snapshot_dir: export\ncache:\n  directory: caches\n",
    sampleConfiguration, ?_, rfl, ?_, rfl, rfl⟩
  · exact Configuration.find_eq_ok.mpr ⟨rfl, by decide +kernel⟩
  · decide +kernel

theorem enter_sample : sample.enter (CacheRegistry.directoryFor ⟨"caches"⟩ "gauges") = .ok
    ["caches", "34ed013fe6a6a4739c39a5ed0121f6866bee050821eb0499b24c60ac3fc8a97a"] := by
  have hhex : Sha256.hex "gauges" =
      "34ed013fe6a6a4739c39a5ed0121f6866bee050821eb0499b24c60ac3fc8a97a" := by decide +kernel
  rw [CacheRegistry.directoryFor, hhex]
  rfl

/-- The caches of the sample stand, with nothing in them. -/
theorem opens_sample (command : Command) : ∃ e,
    (Workspace.openFor (fun _ => none) ⟨some ⟨"config.yaml"⟩, none, command⟩).run sample =
      (.ok sampleWorkspace, e) ∧
    sampleWorkspace.Stands (fun _ => none) (some ⟨"config.yaml"⟩) e [] [] ∧
    Elsewhere CacheRegistry.fileNames sample e := by
  obtain ⟨e, hopen, hstands, helse⟩ :=
    CacheRegistry.run_openIn_fresh (.ofSeconds 900) enter_sample fun s hs => by
      simp only [CacheRegistry.fileNames, CacheFiles.namesOf, List.cons_append, List.nil_append,
        List.mem_cons, List.not_mem_nil, or_false] at hs
      rcases hs with rfl | rfl | rfl | rfl | rfl <;> rfl
  have haway : ∀ p ∈ some (⟨"config.yaml"⟩ : Path),
      p.Away (UpdateLock.fileName :: CacheRegistry.fileNames) := by
    rintro p ⟨⟩
    exact ⟨⟨""⟩, "config.yaml", rfl, ⟨by decide, by decide, by decide, by decide⟩, by decide⟩
  exact ⟨e, Workspace.run_openFor load_sample rfl hopen command,
    ⟨Configuration.run_load_elsewhere (helse.mono (List.subset_cons_self _ _)) haway (by decide)
      (by decide) load_sample, haway, hstands⟩, helse⟩

theorem holdsUnits_sample : sampleWorkspace.source.HoldsUnits sample [sampleUnit] :=
  ⟨_, "[\x7b\"phenomenon\":\"depth\",\"unit\":\"m\"\x7d]", rfl, rfl, by decide +kernel⟩

theorem holdsOfferings_sample :
    sampleWorkspace.source.HoldsOfferings sample [offeringAt drifting] :=
  ⟨_, rfl, by decide +kernel⟩

/-- A refresh of the sample is completed. -/
theorem completed_sample {e f : Disk} {o : RefreshOutcome} {us : List UnitMapping}
    {os : List Offering} (helse : Elsewhere CacheRegistry.fileNames sample e)
    (h : sampleWorkspace.caches.Refreshes sampleWorkspace.source e f [] [] o us os) :
    o = .completed 2 ∧ us = [sampleUnit] ∧ os = [offeringAt drifting] :=
  h.of_holds ((ExportDirectory.holdsUnits_iff helse (by decide)).mpr holdsUnits_sample)
    (by decide) ((ExportDirectory.holdsOfferings_iff helse (by decide)).mpr holdsOfferings_sample)
    (by decide)

/-! ## One after the other -/

/-- End to end: after a refresh from any export, from any state that refreshes lead to, units are
shown as those before overlaid by the new ones and offerings as the last ones, sorted and once each,
or the refresh names the cache at which it stopped. A record's coordinates are shown as they read
back. -/
theorem refresh_then_show (hturns : 0 < turns) (hargs : Request.read? args = some (.invoke i))
    (hcommand : i.command = .refresh) (hopen : (Workspace.openFor lookup i).run d = (.ok w, e))
    (h : w.Stands lookup i.config e us os) :
    ∃ o us' os' f, simulate turns lookup time args d = ((JobEnd.outcome o).report, f) ∧
      w.caches.Refreshes w.source e f us os o us' os' ∧
      (∀ command, ∃ g, (Workspace.openFor lookup ⟨i.config, none, command⟩).run f =
          (.ok { w with log := none }, g) ∧ w.Stands lookup i.config g us' os') ∧
      (∀ args', Request.read? args' = some (.invoke ⟨i.config, none, .print .unitMappings⟩) →
        us' ≠ [] → ∃ lines, EntityCache.Printed us' lines ∧
          ∀ turns time, (simulate turns lookup time args' f).1 = ⟨0, lines, []⟩) ∧
      ∀ args', Request.read? args' = some (.invoke ⟨i.config, none, .print .offerings⟩) →
        os' ≠ [] → ∃ lines, EntityCache.Printed (os'.filterMap Record.readBack?) lines ∧
          ((∀ o ∈ os', o.ReadsBack) → EntityCache.Printed os' lines) ∧
          ∀ turns time, (simulate turns lookup time args' f).1 = ⟨0, lines, []⟩ := by
  obtain ⟨o, us', os', f, hsimulate, hrefreshes, hstands⟩ :=
    simulate_refresh time hturns hargs hcommand hopen h
  refine ⟨o, us', os', f, hsimulate, hrefreshes, hstands.run_openFor hopen,
    fun args' hargs' => shows_units hopen hstands hargs', fun args' hargs' hos => ?_⟩
  obtain ⟨lines, hlines, hshown⟩ := shows_offerings hopen hstands hargs' hos
  refine ⟨lines, hlines, fun hback => ?_, hshown⟩
  rwa [Record.filterMap_readBack? (α := Offering) hback] at hlines

/-- The unit of the sample is shown after a refresh. -/
theorem refresh_then_show_sample : ∃ f lines,
    simulate 1 (fun _ => none) (fun _ => "") ["-c", "config.yaml", "refresh"] sample =
      (⟨0, ["Refreshed 2 caches"], []⟩, f) ∧
    (simulate 1 (fun _ => none) (fun _ => "") ["-c", "config.yaml", "show", "unit-mappings"] f).1 =
      ⟨0, lines, []⟩ ∧ EntityCache.Printed [sampleUnit] lines := by
  obtain ⟨e, hopen, hstands, helse⟩ := opens_sample .refresh
  have hargs : Request.read? ["-c", "config.yaml", "refresh"] =
    some (.invoke ⟨some ⟨"config.yaml"⟩, none, .refresh⟩) := rfl
  obtain ⟨o, us, os, f, hsimulate, hrefreshes, -, hshow, -⟩ :=
    refresh_then_show (fun _ => "") Nat.one_pos hargs rfl hopen hstands
  obtain ⟨rfl, rfl, rfl⟩ := completed_sample helse hrefreshes
  obtain ⟨lines, hlines, hshown⟩ :=
    hshow ["-c", "config.yaml", "show", "unit-mappings"] rfl (List.cons_ne_nil _ _)
  exact ⟨f, lines, hsimulate, hshown 1 _, hlines⟩

/-- The offering that is shown after a refresh is not the one of the export. -/
theorem show_of_drifting_offering : ∃ f line,
    sampleWorkspace.source.HoldsOfferings sample [offeringAt drifting] ∧
    simulate 1 (fun _ => none) (fun _ => "") ["-c", "config.yaml", "refresh"] sample =
      (⟨0, ["Refreshed 2 caches"], []⟩, f) ∧
    (simulate 1 (fun _ => none) (fun _ => "") ["-c", "config.yaml", "show", "offerings"] f).1 =
      ⟨0, [line], []⟩ ∧ line ≠ String.ofList (Entity.body (offeringAt drifting)) := by
  obtain ⟨e, hopen, hstands, helse⟩ := opens_sample .refresh
  have hargs : Request.read? ["-c", "config.yaml", "refresh"] =
    some (.invoke ⟨some ⟨"config.yaml"⟩, none, .refresh⟩) := rfl
  obtain ⟨o, us, os, f, hsimulate, hrefreshes, hstands'⟩ :=
    simulate_refresh (fun _ => "") Nat.one_pos hargs rfl hopen hstands
  obtain ⟨rfl, rfl, rfl⟩ := completed_sample helse hrefreshes
  have hshow : Request.read? ["-c", "config.yaml", "show", "offerings"] =
    some (.invoke ⟨some ⟨"config.yaml"⟩, none, .print .offerings⟩) := rfl
  obtain ⟨lines, ⟨ps, hps, rfl⟩, hshown⟩ :=
    shows_offerings hopen hstands' hshow (List.cons_ne_nil _ _)
  have hread : [offeringAt drifting].filterMap Record.readBack? = [offeringAt drifted] := by
    decide +kernel
  rw [hread] at hps
  obtain rfl : ps = [offeringAt drifted] := hps.unique (Record.lasts_batchOf [offeringAt drifted])
  exact ⟨f, _, holdsOfferings_sample, hsimulate, hshown 1 _, by decide +kernel⟩

end Program

end SensorCache
