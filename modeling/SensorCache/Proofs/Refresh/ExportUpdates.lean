import SensorCache.Proofs.Refresh.CacheTargets
import SensorCache.Proofs.Refresh.TwoWays
import SensorCache.Proofs.Source.Exports

/-!
# Updates from an export

An update of unit mappings or of offerings from an export need not wait. It stores what the export
holds, if that is all accepted, and else fails with the snapshot as it was. Whatever it does, it
does to the files of its own cache (`elsewhere_update`).
-/

namespace SensorCache

open Disk Time

variable {α σ : Type} {d e m : Disk} {s : Scene σ} {dir : Path} {x : ExportDirectory}

/-- The names of the files of a kind's cache. -/
def CacheFiles.namesOf (kind : String) : List String := [kind ++ ".cache", kind ++ ".cache.tmp"]

namespace EntityCache

/-! ## The files of other names -/

/-- Unless a directory is in the place of the work file, only files of the cache change. -/
def Minds (α : Type) [Entity α] (dir : Path) (d e : Disk) : Prop :=
  d.NoDirectory (CacheFiles.ofKind dir (Entity.kind α)).work →
    Elsewhere (CacheFiles.namesOf (Entity.kind α)) d e

section Minds

variable [Entity α]

theorem Minds.refl (d : Disk) : Minds α dir d d := fun _ => .refl _ d

variable [PlainKind α]

/-- Work changes the work file only. -/
theorem workKeeps_elsewhere (dir : Path) (policy : CachePolicy) :
    (inDirectory α dir policy).files.WorkKeeps
      (Elsewhere (CacheFiles.namesOf (Entity.kind α))) := by
  obtain ⟨-, ht, -⟩ := CacheFiles.names_ofKind (PlainKind.no_slash (α := α))
  have htn : Entity.kind α ++ ".cache.tmp" ∈ CacheFiles.namesOf (Entity.kind α) :=
    List.mem_cons_of_mem _ List.mem_cons_self
  exact ⟨.refl _, elsewhere_truncate ht htn, elsewhere_append ht htn⟩

theorem Minds.trans (h : Minds α dir d m) (k : Minds α dir m e) : Minds α dir d e := by
  intro hd
  obtain ⟨-, ht, -⟩ := CacheFiles.names_ofKind (PlainKind.no_slash (α := α))
  have hm := h hd
  exact hm.trans (k (hm.directories.noDirectory ht hd))

theorem elsewhere_update {policy : CachePolicy} {src : Source α} (hsrc : src.Keeps (Minds α dir))
    {limits : CallLimits} {z : Except RefreshError Nat}
    (h : ((inDirectory α dir policy).update src limits).Prompt s d z e)
    (hd : d.NoDirectory (inDirectory α dir policy).files.work) :
    Elsewhere (CacheFiles.namesOf (Entity.kind α)) d e := by
  obtain ⟨hs, ht, -⟩ := CacheFiles.names_ofKind (PlainKind.no_slash (α := α))
  have hsn : Entity.kind α ++ ".cache" ∈ CacheFiles.namesOf (Entity.kind α) := List.mem_cons_self
  have htn : Entity.kind α ++ ".cache.tmp" ∈ CacheFiles.namesOf (Entity.kind α) :=
    List.mem_cons_of_mem _ List.mem_cons_self
  have hw := workKeeps_elsewhere (α := α) dir policy
  have hkeeps : ((inDirectory α dir policy).update src limits : Course σ _).Keeps (Minds α dir) :=
    keeps_update ⟨.refl, fun d _ => hw.clear d, fun bytes d _ => hw.append bytes d⟩
      (fun d hd => elsewhere_rename ht hs htn hsn hd) hsrc limits
  obtain ⟨t, -, -, hcomes⟩ := h
  have hends : (((inDirectory α dir policy).update src limits).proceed s).Ends
      (.among (Minds α dir)) d _ _ := Routine.ends_run (fun o d => ⟨d, .refl d, rfl⟩) _ d
  rw [hcomes] at hends
  exact (hkeeps.ends_proceed (Conduct.within_among _) .refl .trans hends).1 hd

end Minds

/-! ## Units -/

/-- Units are stored at once, over those before, or the update fails. -/
theorem update_units {c : EntityCache UnitMapping} (hf : c.files.Siblings) (x : ExportDirectory)
    {ds : List UnitMapping} (h : c.files.Saves d ds) (hds : ∀ a ∈ ds, Record.Accepted a)
    (limits : CallLimits) :
    (∃ us n e, x.HoldsUnits d us ∧ (∀ a ∈ us, Record.Accepted a) ∧
      c.files.Holds e (c.mergedWith ds (batchOf us)).values [] ∧
      ∀ s : Scene σ, s.Free → (c.update x.unitMappings limits).Prompt s d (.ok n) e) ∨
    (∀ us, x.HoldsUnits d us → ∃ a ∈ us, ¬Record.Accepted a) ∧
      ∃ e, Spares c.files.snapshot d e ∧ ∀ s : Scene σ, s.Free → ∃ y, y ≠ RefreshError.cancelled ∧
        (c.update x.unitMappings limits).Prompt s d (.error y) e := by
  rcases x.fetches_unitMappings d with ⟨us, hus, hfetch⟩ | ⟨hnone, y, hfetch⟩
  · by_cases hall : ∀ a ∈ us, Record.Accepted a
    · obtain ⟨e, hstore, he⟩ := holds_storeAllIn (o := .ascending) hf h hds hall
      exact .inl ⟨us, _, e, hus, hall, he, fun s hs =>
        prompt_updateBulkIn (o := .ascending) hs hfetch hstore _⟩
    · obtain ⟨y, e, hstore, he⟩ := spares_storeAllIn (o := .ascending) hf h (by simpa using hall)
      refine .inr ⟨fun us' hus' => ?_, e, he,
        fun s hs => ⟨.cache y, (nomatch ·), prompt_updateBulkIn (o := .ascending) hs hfetch hstore _⟩⟩
      rw [← ExportDirectory.HoldsUnits.unique hus hus']
      simpa using hall
  · refine .inr ⟨fun us hus => absurd hus (hnone us), d, .refl d, fun s hs => ?_⟩
    have hfetches : x.unitMappings.fetch.Fetches d (.error (.backend y)) d := hfetch
    exact ⟨.source y, (nomatch ·), prompt_updateBulk_error hs hfetches _⟩

/-! ## Offerings -/

theorem settleStreamed_fails (c : EntityCache Offering) {t : Sink} {y : SourceError}
    (h : ExportDirectory.Fails t y) : ∃ z, z ≠ RefreshError.cancelled ∧
      (settleStreamed .ascending c t (.error y) : Course σ _) = pure (.error z) := by
  unfold settleStreamed
  cases ht : t.failure with
  | some z => exact ⟨.cache z, (nomatch ·), rfl⟩
  | none =>
    obtain ⟨m, rfl⟩ | ⟨z, hz⟩ := h
    · exact ⟨.source m, (nomatch ·), rfl⟩
    · cases ht.symm.trans hz

section Offerings

variable {policy : CachePolicy} {ds os : List Offering}

/-- Streaming begins with an empty work file, and no other file changes. -/
theorem run_beginStreaming (h : (inDirectory Offering dir policy).files.Saves d ds) :
    ∃ m, (inDirectory Offering dir policy).beginStreaming.run d = (.ok (), m) ∧
      (inDirectory Offering dir policy).files.Holds m ds [] ∧
      Spares (inDirectory Offering dir policy).files.snapshot d m ∧
      Elsewhere (CacheFiles.namesOf (Entity.kind Offering)) d m := by
  have hf := siblings_inDirectory Offering dir policy
  obtain ⟨m, hbegin, hm⟩ := CacheFiles.run_clearWork hf h
  have hclear : (inDirectory Offering dir policy).files.clearWork.outcome.run d = (.ok (), m) :=
    hbegin
  have hspares := hf.workKeeps.clearWork.run .refl .trans d
  have helse := (workKeeps_elsewhere (α := Offering) dir policy).clearWork.run (.refl _) .trans d
  rw [hclear] at hspares helse
  exact ⟨m, hbegin, hm, hspares, helse⟩

/-- Offerings that are accepted take the place of those before. -/
theorem update_offerings_accepted (h : (inDirectory Offering dir policy).files.Saves d ds)
    (hds : ∀ a ∈ ds, Record.Accepted a) (hos : x.HoldsOfferings d os)
    (hall : ∀ a ∈ os, Record.Accepted a) (limits : CallLimits) :
    ∃ n e, (inDirectory Offering dir policy).files.Holds e
        (streamedLog .ascending (inDirectory Offering dir policy) ds os) [] ∧
      ∀ s : Scene σ, s.Free →
        ((inDirectory Offering dir policy).update x.offerings limits).Prompt s d (.ok n) e := by
  have hf := siblings_inDirectory Offering dir policy
  obtain ⟨m, hbegin, hm, -, helse⟩ := run_beginStreaming h
  obtain ⟨n, hn, hdeliver⟩ := SourceCall.run_deliverEach hf hm hall
  obtain ⟨e, hpromote, he⟩ := holds_promoteWorkFileIn (o := .ascending) hf hn hds hall
  rw [List.nil_append] at hpromote he
  refine ⟨((inDirectory Offering dir policy).mergedWith ds (Record.reread os)).size, e, he,
    fun s hs => ?_⟩
  have hj : (s.job.beginWaiting m.clock).interrupted = false := hs.running
  obtain ⟨t, ht, hcall⟩ := x.run_streamOfferings (c := inDirectory Offering dir policy)
    ((x.holdsOfferings_iff helse (by decide)).mpr hos) (s := .new) ⟨rfl, rfl⟩
      (s.job.beginWaiting m.clock)
  obtain ⟨t', k, ht', hk, hend⟩ := hdeliver ht hj
  refine prompt_updateStreamingIn (o := .ascending) hs hbegin (hcall.trans hend) hk _ fun s hs => ?_
  unfold settleStreamed
  rw [ht'.unfailed]
  exact prompt_promoteStreamedIn (o := .ascending) hs hpromote

/-- Unless an export holds offerings that are accepted, the snapshot stays as it was. -/
theorem update_offerings_refused (h : (inDirectory Offering dir policy).files.Saves d ds)
    (hbad : ∀ os, x.HoldsOfferings d os → ∃ a ∈ os, ¬Record.Accepted a) (limits : CallLimits) :
    ∃ e, Spares (inDirectory Offering dir policy).files.snapshot d e ∧
      ∀ s : Scene σ, s.Free → ∃ y, y ≠ RefreshError.cancelled ∧
        ((inDirectory Offering dir policy).update x.offerings limits).Prompt s d (.error y) e := by
  have hf := siblings_inDirectory Offering dir policy
  obtain ⟨m, hbegin, hm, hspares, helse⟩ := run_beginStreaming h
  obtain ⟨e, ws', -, hcall⟩ := x.run_streamOfferings_error hf hm fun os hos =>
    hbad os ((x.holdsOfferings_iff helse (by decide)).mp hos)
  have hstream : Spares (inDirectory Offering dir policy).files.snapshot m e := by
    obtain ⟨y, t, k, -, -, hrun⟩ := hcall (s := .new) (j := .new 0 ⟨0⟩) ⟨rfl, rfl⟩ rfl
    have hkeeps := (x.keeps_offerings (R := Spares (inDirectory Offering dir policy).files.snapshot)
      .refl).stream.run (h := .ofSink (inDirectory Offering dir policy))
        (fun a y => keeps_item hf.workKeeps a y.1 y.2) (.new, .new 0 ⟨0⟩)
    have hend := hkeeps.run .refl .trans m
    rwa [hrun] at hend
  refine ⟨e, hspares.trans hstream, fun s hs => ?_⟩
  have hj : (s.job.beginWaiting m.clock).interrupted = false := hs.running
  obtain ⟨y, t, k, hfails, hk, hrun⟩ := hcall (s := .new) ⟨rfl, rfl⟩ hj
  obtain ⟨z, hz, hsettle⟩ := settleStreamed_fails (σ := σ) (inDirectory Offering dir policy) hfails
  refine ⟨z, hz, prompt_updateStreamingIn (o := .ascending) hs hbegin hrun hk _ fun s hs => ?_⟩
  rw [hsettle]
  exact Course.prompt_pure hs _ _

end Offerings

end EntityCache

end SensorCache
