import SensorCache.CommandLine.Simulated
import SensorCache.Proofs.Configuration.Loading
import SensorCache.Proofs.Refresh.StoreRefresh

/-!
# Opening what a command works with

A command works with the caches that its configuration names, whichever command it is. What they
remember is not changed by opening them once more.
-/

namespace SensorCache

open Disk Time

variable {d e : Disk} {lookup : String → Option String} {i : Invocation} {w : Workspace}
  {us : List UnitMapping} {os : List Offering}

namespace CacheRegistry

variable {base : Path} {identity : String} {freshness : Span} {r : CacheRegistry}

/-- The caches are those of the store's directory. -/
theorem eq_of_openIn (h : (openIn base identity freshness).run d = (.ok r, e)) :
    r = inDirectory (directoryFor base identity) freshness := by
  unfold openIn at h
  generalize directoryFor base identity = dir at h ⊢
  obtain ⟨u, m, hu, hrest⟩ := Attempt.exists_of_run_bind h
  obtain ⟨o, n, ho, hlast⟩ := Attempt.exists_of_run_bind hrest
  obtain ⟨_, k, -, hu'⟩ := Attempt.exists_of_run_bind hu
  obtain ⟨_, l, -, ho'⟩ := Attempt.exists_of_run_bind ho
  cases hu'
  cases ho'
  cases hlast
  rfl

/-- Opened in a directory without their files, the caches stand with nothing in them. -/
theorem run_openIn_fresh (freshness : Span) {l : Place}
    (hl : d.enter (directoryFor base identity) = .ok l)
    (hnone : ∀ s ∈ UpdateLock.fileName :: fileNames, d.node? (l ++ [s]) = none) :
    ∃ e, (openIn base identity freshness).run d =
        (.ok (inDirectory (directoryFor base identity) freshness), e) ∧
      (inDirectory (directoryFor base identity) freshness).Stands e [] [] ∧
      Elsewhere fileNames d e := by
  have hnew : ∀ s ∈ UpdateLock.fileName :: fileNames,
      d.Missing (directoryFor base identity / ⟨s⟩) := fun s hs => by
    rw [Missing, view_join (plain_of_mem hs), hl]
    simp [find, hnone s hs]
  let r := inDirectory (directoryFor base identity) freshness
  have hus : d.Missing r.unitMappings.files.snapshot := hnew _ (by decide)
  have hut : d.Missing r.unitMappings.files.work := hnew _ (by decide)
  obtain ⟨m, hm, hu⟩ := EntityCache.run_openIn hl hus hut
  have hdm : Elsewhere (CacheFiles.namesOf (Entity.kind UnitMapping)) d m :=
    EntityCache.elsewhere_openIn hl hm
  have hlm := hdm.directories.enter_ok hl
  obtain ⟨hs, ht, -⟩ := CacheFiles.names_ofKind (PlainKind.no_slash (α := Offering))
  have hos : m.Missing r.offerings.files.snapshot :=
    (hdm.view hs (by decide) hl).trans (hnew _ (by decide))
  have hot : m.Missing r.offerings.files.work :=
    (hdm.view ht (by decide) hl).trans (hnew _ (by decide))
  obtain ⟨e, he, ho⟩ := EntityCache.run_openIn hlm hos hot
  have hme := EntityCache.elsewhere_openIn hlm he
  have hde : Elsewhere fileNames d e :=
    (hdm.mono (List.subset_append_left _ _)).trans (hme.mono (List.subset_append_right _ _))
  refine ⟨e, ?_, ⟨?_, EntityCache.remembers_log ho.saves (List.forall_mem_nil _), ?_⟩, hde⟩
  · rw [openIn, Attempt.run_bind_ok hm, Attempt.run_bind_ok he]
    rfl
  · exact (EntityCache.remembers_log hu.saves (List.forall_mem_nil _)).elsewhere hme (by decide)
  · exact (hde.view plain_lockName (by decide) hl).trans (hnew _ List.mem_cons_self)

/-- Caches that stand are opened as they are. -/
theorem Stands.run_openIn
    (h : (inDirectory (directoryFor base identity) freshness).Stands d us os) :
    ∃ e, (openIn base identity freshness).run d =
        (.ok (inDirectory (directoryFor base identity) freshness), e) ∧
      (inDirectory (directoryFor base identity) freshness).Stands e us os ∧
      Elsewhere fileNames d e := by
  obtain ⟨m, hm, hum, hdm⟩ := h.units.run_openIn
  have hom := h.offerings.elsewhere hdm (by decide)
  obtain ⟨e, he, hoe, hme⟩ := hom.run_openIn
  have hde : Elsewhere fileNames d e :=
    (hdm.mono (List.subset_append_left _ _)).trans (hme.mono (List.subset_append_right _ _))
  obtain ⟨l, hl⟩ := h.enters
  refine ⟨e, ?_, ⟨hum.elsewhere hme (by decide), hoe, ?_⟩, hde⟩
  · rw [openIn, Attempt.run_bind_ok hm, Attempt.run_bind_ok he]
    rfl
  · exact (hde.view plain_lockName (by decide) hl).trans h.free

end CacheRegistry

namespace Workspace

theorem eq_of_having {α : Type} {x : Except ConfigurationError α} {a : α}
    (h : (having x).run d = (.ok a, e)) : x = .ok a := by
  cases x with
  | error y => cases h
  | ok b =>
    cases h
    rfl

/-- What is worked with is told by the configuration. -/
theorem openFor_eq_ok (h : (openFor lookup i).run d = (.ok w, e)) : ∃ base,
    w.configuration.cacheDir lookup = .ok base ∧
    w.caches = .inDirectory (CacheRegistry.directoryFor base w.configuration.identity)
      (.ofSeconds w.configuration.freshness) ∧
    w.source = ⟨w.configuration.exportDir⟩ := by
  rw [openFor] at h
  cases hl : i.logFile <;> rw [hl] at h <;> dsimp only at h
  case' some p => obtain ⟨log, d, -, h⟩ := Attempt.exists_of_run_bind h
  all_goals
    obtain ⟨_, m, -, hlog⟩ := Attempt.exists_of_run_bind h
    obtain ⟨c, n, -, hload⟩ := Attempt.exists_of_run_bind hlog
    obtain ⟨base, k, hbase, hdir⟩ := Attempt.exists_of_run_bind hload
    obtain ⟨r, l, hr, hopen⟩ := Attempt.exists_of_run_bind hdir
    obtain ⟨_, o, -, hend⟩ := Attempt.exists_of_run_bind hopen
    cases hend
    exact ⟨base, eq_of_having hbase, CacheRegistry.eq_of_openIn (Attempt.run_of_because hr), rfl⟩

theorem siblings_of_openFor (h : (openFor lookup i).run d = (.ok w, e)) :
    w.caches.unitMappings.files.Siblings ∧ w.caches.offerings.files.Siblings := by
  obtain ⟨base, -, hcaches, -⟩ := openFor_eq_ok h
  rw [hcaches]
  exact ⟨EntityCache.siblings_inDirectory UnitMapping _ _,
    EntityCache.siblings_inDirectory Offering _ _⟩

/-- What an invocation without a log works with. -/
theorem run_openFor {named : Option Path} {c : Configuration} {base : Path} {r : CacheRegistry}
    (hload : (Configuration.load lookup named).run d = (.ok c, d))
    (hbase : c.cacheDir lookup = .ok base)
    (hopen : (CacheRegistry.openIn base c.identity (.ofSeconds c.freshness)).run d = (.ok r, e))
    (command : Command) : (openFor lookup ⟨named, none, command⟩).run d =
      (.ok ⟨c, r, ⟨c.exportDir⟩, none⟩, e) := by
  have hlog : (pure none : Attempt CommandFailure (Option Path)).run d = (.ok none, d) := rfl
  have hdir : (having (c.cacheDir lookup)).run d = (.ok base, d) := by
    rw [hbase]
    rfl
  rw [openFor]
  dsimp only
  rw [Attempt.run_bind_ok hlog, Attempt.run_bind_ok (Attempt.run_because_ok hload),
    Attempt.run_bind_ok hdir, Attempt.run_bind_ok (Attempt.run_because_ok hopen)]
  rfl

/-- The configuration can be read, from a file that is none of the caches' own, and the caches
stand. -/
structure Stands (w : Workspace) (lookup : String → Option String) (named : Option Path) (d : Disk)
    (us : List UnitMapping) (os : List Offering) : Prop where
  configuration : (Configuration.load lookup named).run d = (.ok w.configuration, d)
  apart : ∀ p ∈ named, p.Away (UpdateLock.fileName :: CacheRegistry.fileNames)
  caches : w.caches.Stands d us os

theorem Stands.elsewhere {named : Option Path} {us' : List UnitMapping} {os' : List Offering}
    (h : w.Stands lookup named d us os)
    (hd : Elsewhere (UpdateLock.fileName :: CacheRegistry.fileNames) d e)
    (hcaches : w.caches.Stands e us' os') : w.Stands lookup named e us' os' :=
  ⟨Configuration.run_load_elsewhere hd h.apart (by decide) (by decide) h.configuration, h.apart,
    hcaches⟩

/-- Another command opens the same, if it has no log. -/
theorem Stands.run_openFor {named : Option Path} (hopen : (openFor lookup i).run d = (.ok w, e))
    {f : Disk} (h : w.Stands lookup named f us os) (command : Command) :
    ∃ g, (openFor lookup ⟨named, none, command⟩).run f = (.ok { w with log := none }, g) ∧
      w.Stands lookup named g us os := by
  obtain ⟨base, hbase, hcaches, hsource⟩ := openFor_eq_ok hopen
  have hstands := h.caches
  rw [hcaches] at hstands
  obtain ⟨g, hg, hstands', helse⟩ := hstands.run_openIn
  have hrun := Workspace.run_openFor h.configuration hbase hg command
  rw [← hcaches, ← hsource] at hrun
  exact ⟨g, hrun, h.elsewhere (helse.mono (List.subset_cons_self _ _)) (hcaches ▸ hstands')⟩

end Workspace

end SensorCache
