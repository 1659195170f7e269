import Mathlib.Data.List.Basic
import SensorCache.CommandLine.Program
import SensorCache.Proofs.Refresh.ExportUpdates
import SensorCache.Proofs.Text.Bytes

/-!
# What a cache remembers

A cache remembers entities if readers find in its snapshot what they would in a log of all these
(`Remembers`). What is printed of a cache then are the last of them under each key, as they read
back, in the order of the keys' bytes (`Printed`). It does not matter what happens to other files,
nor that the cache is opened again. After an update from an export (`Updates`) it remembers the units
of before and those of the export, or the offerings of the export only.
-/

namespace SensorCache

open Disk Time

variable {α : Type} [Entity α] {d e : Disk} {es us ds : List α} {dir : Path} {policy : CachePolicy}

/-! ## The last under each key -/

namespace Record

/-- These are the last of some entities under each key, once each, by the bytes of their keys. -/
structure Lasts (es ps : List α) : Prop where
  ascending : (ps.map fun e => Text.bytes (Entity.key e)).Pairwise (· < ·)
  mem {e : α} : e ∈ ps ↔ (es.filter fun a => Entity.key a = Entity.key e).getLast? = some e

theorem lasts_batchOf (es : List α) : Lasts es (EntityCache.batchOf es).values where
  ascending := by
    have hkeys : (EntityCache.batchOf es).values.map (fun e => Text.bytes (Entity.key e)) =
        (EntityCache.batchOf es).keys.map Text.bytes := by
      rw [← (EntityCache.byKey_batchOf es).map_key, List.map_map]
      rfl
    rw [hkeys, List.pairwise_map]
    exact (EntityCache.batchOf es).pairwise_keys.imp Text.bytes_lt
  mem {e} := by
    rw [← EntityCache.get?_batchOf, (EntityCache.byKey_batchOf es).get?_eq_some]
    exact (and_iff_left rfl).symm

/-- There is only one such list. -/
theorem Lasts.unique {ps qs : List α} (hp : Lasts es ps) (hq : Lasts es qs) : ps = qs := by
  have hnodup : ∀ {rs : List α}, Lasts es rs → rs.Nodup := fun h =>
    (List.pairwise_map.mp h.ascending).imp fun {a b} hlt => by
      rintro rfl
      exact List.lt_irrefl _ hlt
  refine List.Perm.eq_of_pairwise (fun a b _ _ hab hba => ?_) (List.pairwise_map.mp hp.ascending)
    (List.pairwise_map.mp hq.ascending) ?_
  · exact absurd hba (List.lt_asymm hab)
  · exact (List.perm_ext_iff_of_nodup (hnodup hp) (hnodup hq)).mpr fun a => by rw [hp.mem, hq.mem]

theorem filterMap_readBack? [LawfulEntity α] (h : ∀ a ∈ es, LawfulEntity.ReadsBack a) :
    es.filterMap readBack? = es :=
  (List.filterMap_congr fun a ha => readBack?_of_readsBack (h a ha)).trans List.filterMap_some

end Record

namespace EntityCache

variable {c : EntityCache α}

/-- The lines are the bodies of the last entities under each key. -/
def Printed (es : List α) (lines : List String) : Prop :=
  ∃ ps, Record.Lasts es ps ∧ lines = ps.map fun e => String.ofList (Entity.body e)

/-- The snapshot is a log of accepted entities which readers cannot tell from that of `es`. -/
structure Remembers (c : EntityCache α) (d : Disk) (es : List α) : Prop where
  log : ∃ ds, c.files.Saves d ds ∧ (∀ a ∈ ds, Record.Accepted a) ∧ Alike ds es
  accepted : ∀ a ∈ es, Record.Accepted a

theorem remembers_log (h : c.files.Saves d es) (hes : ∀ a ∈ es, Record.Accepted a) :
    c.Remembers d es := ⟨⟨es, h, hes, .rfl, rfl⟩, hes⟩

/-- What is remembered is printed, if it is anything at all. -/
theorem Remembers.run_entityLines [KeyedEntity α] (hf : c.files.Siblings) (h : c.Remembers d es)
    (hes : es ≠ []) : ∃ lines, (Workspace.entityLines c).run d = (.ok lines, d) ∧
      Printed (es.filterMap Record.readBack?) lines := by
  obtain ⟨ds, hsaves, hds, halike⟩ := h.log
  have hget := run_get_durable hf hsaves (fun hnil => hes (halike.empty.mp hnil)) .new
  rw [halike.reread, Record.reread_eq h.accepted] at hget
  refine ⟨_, ?_, _, Record.lasts_batchOf (es.filterMap Record.readBack?), rfl⟩
  have hdata : (Attempt.ofOutcome (do return (← c.get .new).1) : Attempt CacheError _).run d =
      (.ok (batchOf (es.filterMap Record.readBack?)), d) := by
    show (do return (← c.get .new).1 : Routine _).run d = _
    rw [Routine.run_bind, hget]
    rfl
  rw [Workspace.entityLines, Attempt.run_bind_ok hdata]
  rfl

/-! ## Whatever else happens -/

theorem Remembers.spares (hf : c.files.Siblings) (h : c.Remembers d es)
    (hspares : Spares c.files.snapshot d e) : c.Remembers e es := by
  obtain ⟨ds, ⟨⟨u, hu⟩, hwork⟩, hds, halike⟩ := h.log
  exact ⟨⟨ds, ⟨⟨u, hspares.view.trans hu⟩, CacheFiles.noDirectory_of_spares hf hspares hwork⟩, hds,
    halike⟩, h.accepted⟩

variable [PlainKind α]

/-- The directory of a cache that remembers is there. -/
theorem Remembers.enters (h : (inDirectory α dir policy).Remembers d es) :
    ∃ l, d.enter dir = .ok l := by
  obtain ⟨ds, ⟨⟨u, hu⟩, -⟩, -⟩ := h.log
  obtain ⟨hs, -⟩ := CacheFiles.names_ofKind (PlainKind.no_slash (α := α))
  obtain ⟨l, hl, -⟩ := (view_eq_file hs).mp hu
  exact ⟨l, hl⟩

theorem spares_of_elsewhere {ns : List String} {l : Place} (h : Elsewhere ns d e)
    (hns : Entity.kind α ++ ".cache" ∉ ns) (hl : d.enter dir = .ok l) :
    Spares (inDirectory α dir policy).files.snapshot d e :=
  have ⟨hs, _, _⟩ := CacheFiles.names_ofKind (PlainKind.no_slash (α := α))
  ⟨h.directories, h.view hs hns hl⟩

theorem Remembers.elsewhere {ns : List String} (h : (inDirectory α dir policy).Remembers d es)
    (hd : Elsewhere ns d e) (hns : Entity.kind α ++ ".cache" ∉ ns) :
    (inDirectory α dir policy).Remembers e es :=
  have ⟨_, hl⟩ := h.enters
  h.spares (siblings_inDirectory α dir policy) (spares_of_elsewhere hd hns hl)

/-! ## Opening again -/

/-- A cache that remembers is opened without being changed; at most its work file is made. -/
theorem Remembers.run_openIn (h : (inDirectory α dir policy).Remembers d es) :
    ∃ e, (openIn α dir policy).run d = (.ok (inDirectory α dir policy), e) ∧
      (inDirectory α dir policy).Remembers e es ∧
      Elsewhere (CacheFiles.namesOf (Entity.kind α)) d e := by
  obtain ⟨ds, hsaves, -⟩ := h.log
  have hf := siblings_inDirectory α dir policy
  have hensure := CacheFiles.run_ensure_again hf hsaves
  exact ⟨_, Attempt.run_bind_ok hensure, h.spares hf (hf.workKeeps.append .empty d),
    (workKeeps_elsewhere dir policy).append .empty d⟩

/-- A cache that is opened where its directory is makes no more than its own files. -/
theorem elsewhere_openIn {l : Place} {c : EntityCache α} (hl : d.enter dir = .ok l)
    (h : (openIn α dir policy).run d = (.ok c, e)) :
    Elsewhere (CacheFiles.namesOf (Entity.kind α)) d e := by
  obtain ⟨hs, ht, -⟩ := CacheFiles.names_ofKind (PlainKind.no_slash (α := α))
  have hdir : (Disk.ensureDirectory (dir / ⟨Entity.kind α ++ ".cache"⟩).parent).run d = (.ok (), d) :=
    run_ensureDirectory (enter_parent hs hl)
  obtain ⟨_, m, hensure, hlast⟩ := Attempt.exists_of_run_bind h
  cases hlast
  obtain ⟨_, k, hk, hfiles⟩ := Attempt.exists_of_run_bind hensure
  cases hk.symm.trans (Attempt.run_because_ok hdir)
  obtain ⟨_, n, hsnapshot, hwork⟩ := Attempt.exists_of_run_bind hfiles
  have hn := congrArg Prod.snd (Attempt.run_of_because hsnapshot)
  have he := congrArg Prod.snd (Attempt.run_of_because hwork)
  subst hn he
  exact (elsewhere_append hs List.mem_cons_self .empty d).trans
    (elsewhere_append ht (List.mem_cons_of_mem _ List.mem_cons_self) .empty _)

/-! ## Units after units -/

/-- Units that are stored are remembered after those before. -/
theorem Remembers.merged {dir : Path} {policy : CachePolicy} {es us ds : List UnitMapping}
    (hpolicy : policy.keepsPrevious = true) (halike : Alike ds es)
    (hes : ∀ a ∈ es, Record.Accepted a) (hus : ∀ a ∈ us, Record.Accepted a)
    (h : (inDirectory UnitMapping dir policy).files.Saves e
      ((inDirectory UnitMapping dir policy).mergedWith ds (batchOf us)).values) :
    (inDirectory UnitMapping dir policy).Remembers e (es ++ us) := by
  have hread : ∀ {as : List UnitMapping}, (∀ a ∈ as, Record.Accepted a) →
      Record.reread as = batchOf as := fun has =>
    Record.reread_of_readable fun a ha => Record.readable_of_readsBack (has a ha) trivial
  have hall : ∀ a ∈ es ++ us, Record.Accepted a := fun a ha =>
    (List.mem_append.mp ha).elim (hes a) (hus a)
  have hmerged : (inDirectory UnitMapping dir policy).mergedWith ds (batchOf us) =
      batchOf (es ++ us) := by
    have hkeeps : (inDirectory UnitMapping dir policy).policy.keepsPrevious = true := hpolicy
    rw [mergedWith, if_pos hkeeps, halike.reread, hread hes, batchOf_append]
  rw [hmerged] at h
  have hvalues : ∀ a ∈ (batchOf (es ++ us)).values, Record.Accepted a := fun a ha =>
    hall a (mem_of_mem_batchOf ha)
  refine ⟨⟨_, h, hvalues, ?_, ?_⟩, hall⟩
  · rw [Keyed.values_eq_nil, Keyed.size_eq_zero, batchOf_eq_empty]
  · rw [hread hvalues, hread hall]
    exact batchOf_of_perm (byKey_batchOf _) (.refl _)

/-! ## Updates from an export -/

/-- An update from a source that `holds` entities need not wait. It leads from what is remembered,
`es`, to what that becomes with them, or fails and leaves the snapshot as it was. -/
inductive Updates (c : EntityCache α) (src : Source α) (limits : CallLimits)
    (holds : List α → Prop) (becomes : List α → List α) (d e : Disk) (es : List α) :
    List α → Prop where
  | stores {as : List α} {n : Nat} : holds as → (∀ a ∈ as, Record.Accepted a) →
      (∀ s : Scene Unit, s.Free → (c.update src limits).Prompt s d (.ok n) e) →
      Updates c src limits holds becomes d e es (becomes as)
  | refuses : (∀ as, holds as → ∃ a ∈ as, ¬Record.Accepted a) →
      e.view c.files.snapshot = d.view c.files.snapshot →
      (∀ s : Scene Unit, s.Free → ∃ y, y ≠ RefreshError.cancelled ∧
        (c.update src limits).Prompt s d (.error y) e) →
      Updates c src limits holds becomes d e es es

/-- A scene in which an update need not wait. -/
theorem exists_free : ∃ s : Scene Unit, s.Free := ⟨⟨.new 0 ⟨0⟩, .new, ()⟩, rfl, rfl⟩

theorem Remembers.updates_units {us : List UnitMapping} (hpolicy : policy.keepsPrevious = true)
    (h : (inDirectory UnitMapping dir policy).Remembers d us) (x : ExportDirectory)
    (limits : CallLimits) : ∃ e us',
      (inDirectory UnitMapping dir policy).Updates x.unitMappings limits (x.HoldsUnits d) (us ++ ·)
        d e us us' ∧
      (inDirectory UnitMapping dir policy).Remembers e us' ∧
      Elsewhere (CacheFiles.namesOf (Entity.kind UnitMapping)) d e := by
  obtain ⟨s, hs⟩ := exists_free
  obtain ⟨ds, hsaves, hds, halike⟩ := h.log
  have hf := siblings_inDirectory UnitMapping dir policy
  have hkeeps : x.unitMappings.Keeps (Minds UnitMapping dir) := x.keeps_unitMappings Minds.refl
  rcases update_units hf x hsaves hds limits with
    ⟨us', n, e, hus', haccepted, he, hprompt⟩ | ⟨hnone, e, hsame, hprompt⟩
  · exact ⟨e, us ++ us', .stores hus' haccepted hprompt,
      .merged hpolicy halike h.accepted haccepted he.saves,
      elsewhere_update hkeeps (hprompt s hs) hsaves.work⟩
  · obtain ⟨y, -, hfails⟩ := hprompt s hs
    exact ⟨e, us, .refuses hnone hsame.view hprompt, h.spares hf hsame,
      elsewhere_update hkeeps hfails hsaves.work⟩

theorem Remembers.updates_offerings {os : List Offering} (hpolicy : policy.keepsPrevious = false)
    (h : (inDirectory Offering dir policy).Remembers d os) (x : ExportDirectory)
    (limits : CallLimits) : ∃ e os',
      (inDirectory Offering dir policy).Updates x.offerings limits (x.HoldsOfferings d) id d e os
        os' ∧
      (inDirectory Offering dir policy).Remembers e os' ∧
      Elsewhere (CacheFiles.namesOf (Entity.kind Offering)) d e := by
  obtain ⟨s, hs⟩ := exists_free
  obtain ⟨ds, hsaves, hds, -⟩ := h.log
  have hf := siblings_inDirectory Offering dir policy
  have hkeeps : x.offerings.Keeps (Minds Offering dir) := x.keeps_offerings Minds.refl
  by_cases hgood : ∃ os', x.HoldsOfferings d os' ∧ ∀ a ∈ os', Record.Accepted a
  · obtain ⟨os', hos', haccepted⟩ := hgood
    obtain ⟨n, e, he, hprompt⟩ := update_offerings_accepted hsaves hds hos' haccepted limits
    have hlog : streamedLog .ascending (inDirectory Offering dir policy) ds os' = os' :=
      if_neg (by simp [inDirectory, hpolicy])
    rw [hlog] at he
    exact ⟨e, os', .stores hos' haccepted hprompt, remembers_log he.saves haccepted,
      elsewhere_update hkeeps (hprompt s hs) hsaves.work⟩
  · have hbad : ∀ os', x.HoldsOfferings d os' → ∃ a ∈ os', ¬Record.Accepted a := by
      intro os' hos'
      have hnot : ¬∀ a ∈ os', Record.Accepted a := fun hall => hgood ⟨os', hos', hall⟩
      simpa using hnot
    obtain ⟨e, hsame, hprompt⟩ := update_offerings_refused hsaves hbad limits
    obtain ⟨y, -, hfails⟩ := hprompt s hs
    exact ⟨e, os, .refuses hbad hsame.view hprompt, h.spares hf hsame,
      elsewhere_update hkeeps hfails hsaves.work⟩

end EntityCache

end SensorCache
