import Mathlib.Data.List.Basic
import SensorCache.Proofs.Cache.Refinement

/-!
# Merging with whatever the snapshot is

A cache that keeps what was durable reads its snapshot before it stores a batch, and writes again what
it read. What stands in the file decides how far that goes: bytes that are no text are not read, and an
entity that was read but may not be written ends the writing (`storeAll_over_anything`). Lines that are
no records cost only themselves.
-/

namespace SensorCache

open Disk

variable {α : Type} [Entity α]

namespace EntityCache

variable {c : EntityCache α} {o : WriteOrder α} {d e : Disk} {es : List α} {b : ByteArray} {k : String}
  {a : α} {t : Trigger}

/-- The well-formed records of a file, by their ids. -/
def recordsOf (α : Type) [Entity α] (b : ByteArray) : Keyed α :=
  match String.fromUTF8? b with
  | some s => Record.decode α s.toList
  | none => .empty

/-- A record of the file whose id is no key of the batch. -/
def Retained (b : ByteArray) (es : List α) (k : String) (a : α) : Prop :=
  (recordsOf α b).get? k = some a ∧ (batchOf es).get? k = none

/-- A batch together with the file's records that it does not mention. -/
def mergedOver (b : ByteArray) (es : List α) : Keyed α := (recordsOf α b).overlay (batchOf es)

/-- A batch is stored, and then readers get all of it and all that is retained. -/
def StoresWhole (c : EntityCache α) (o : WriteOrder α) (b : ByteArray) (es : List α) (d : Disk)
    (t : Trigger) : Prop :=
  ∃ n e m, (c.storeAllIn o es).run d = (.ok n, e) ∧ (c.get t).run e = ((.ok m, t), e) ∧
    (∀ k a, (batchOf es).get? k = some a → m.get? k = some a) ∧
    ∀ k a, Retained b es k a → m.get? k = some a

theorem get?_mergedOver : (mergedOver b es).get? k = some a ↔
    (batchOf es).get? k = some a ∨ Retained b es k a := by
  rw [mergedOver, Keyed.get?_overlay, Option.or_eq_some_iff]
  exact or_congr_right and_comm

/-- What is written has an accepted key unless it is retained. -/
theorem accepted_of_mem_mergedOver (hes : ∀ a ∈ es, Record.Accepted a)
    (h : a ∈ (mergedOver b es).values) : Record.Accepted a ∨ ∃ k, Retained b es k a := by
  obtain ⟨k, hk⟩ := Keyed.mem_values.mp h
  rcases get?_mergedOver.mp hk with hk | hk
  · exact .inl (hes a (mem_of_get?_batchOf hk).1)
  · exact .inr ⟨k, hk⟩

theorem Retained.mem (h : Retained b es k a) : a ∈ (mergedOver b es).values :=
  Keyed.mem_values.mpr ⟨k, get?_mergedOver.mpr (.inr h)⟩

/-! ## The store -/

theorem run_readSnapshot_bytes (hf : c.files.Siblings) (h : c.files.SavesBytes d b) :
    (c.files.readSnapshot α).run d =
      (match String.fromUTF8? b with
      | some _ => .ok (recordsOf α b)
      | none => .error (.io c.files.snapshot .notText), d) := by
  obtain ⟨u, hu⟩ := h.snapshot
  have hread : (d.perform (.read c.files.snapshot)).1 = .ok b := by
    obtain ⟨dir, s, t, hs, -, -, heq⟩ := hf.names
    rw [heq] at hu ⊢
    exact read_file hs hu
  unfold recordsOf
  cases hb : String.fromUTF8? b with
  | some s => exact CacheFiles.run_readRecords_text hread hb
  | none => exact CacheFiles.run_readRecords_notText hread hb

theorem run_storeAllIn_notText (hkeeps : c.policy.keepsPrevious = true) (hf : c.files.Siblings)
    (h : c.files.SavesBytes d b) (hb : String.fromUTF8? b = none) :
    (c.storeAllIn o es).run d = (.error (.io c.files.snapshot .notText), d) := by
  have hread := run_readSnapshot_bytes (α := α) hf h
  rw [hb] at hread
  have hprevious : (c.withPrevious (batchOf es)).run d =
      (.error (.io c.files.snapshot .notText), d) := by
    rw [withPrevious, Attempt.run_bind_error hread]
  unfold storeAllIn
  rw [if_pos hkeeps, Attempt.run_bind_error hprevious]

theorem run_storeAllIn_text (hkeeps : c.policy.keepsPrevious = true) (hf : c.files.Siblings)
    (h : c.files.SavesBytes d b) {s : String} (hb : String.fromUTF8? b = some s) :
    (c.storeAllIn o es).run d = (c.storeBatchIn o (mergedOver b es)).run d := by
  have hread := run_readSnapshot_bytes (α := α) hf h
  rw [hb] at hread
  have hprevious : (c.withPrevious (batchOf es)).run d = (.ok (mergedOver b es), d) := by
    rw [withPrevious, Attempt.run_bind_ok hread, Attempt.run_pure]
    rfl
  unfold storeAllIn
  rw [if_pos hkeeps, Attempt.run_bind_ok hprevious]

/-- What readers get after a batch was stored over some file. -/
theorem run_storeAllIn_accepted [KeyedEntity α] (hkeeps : c.policy.keepsPrevious = true)
    (hf : c.files.Siblings) (h : c.files.SavesBytes d b) {s : String}
    (hb : String.fromUTF8? b = some s) (hne : es ≠ [])
    (hall : ∀ a ∈ (mergedOver b es).values, Record.Accepted a) (t : Trigger) :
    ∃ e, (c.storeAllIn o es).run d = (.ok (mergedOver b es).size, e) ∧
      (c.get t).run e =
        ((.ok (batchOf ((o.list (mergedOver b es)).filterMap Record.readBack?)), t), e) := by
  have hmem : ∀ a ∈ o.list (mergedOver b es), Record.Accepted a := fun a ha =>
    hall a ((o.perm _).mem_iff.mp ha)
  obtain ⟨e, he, hholds⟩ := run_storeBatchIn_bytes hf h hmem
  refine ⟨e, (run_storeAllIn_text hkeeps hf h hb).trans he, ?_⟩
  have hlist : o.list (mergedOver b es) ≠ [] := by
    obtain ⟨a, es', rfl⟩ := List.exists_cons_of_ne_nil hne
    intro hnil
    cases hlast : (batchOf (a :: es')).get? (Entity.key a) with
    | none =>
      rw [get?_batchOf] at hlast
      simp at hlast
    | some x =>
      have hx := Keyed.mem_values.mpr ⟨_, get?_mergedOver (b := b).mpr (.inl hlast)⟩
      rw [← (o.perm _).mem_iff, hnil] at hx
      cases hx
  rw [run_get_durable hf hholds.saves hlist, Record.reread_eq hmem]

/-- A retained entity that may not be written ends the writing, and the snapshot is as it was. -/
theorem run_storeAllIn_refused (hkeeps : c.policy.keepsPrevious = true) (hf : c.files.Siblings)
    (h : c.files.SavesBytes d b) {s : String} (hb : String.fromUTF8? b = some s)
    (hes : ∀ a ∈ es, Record.Accepted a) (hbad : ∃ k a, Retained b es k a ∧ ¬Record.Accepted a) :
    ∃ k a e, Retained b es k a ∧ ¬Record.Accepted a ∧
      (c.storeAllIn o es).run d = (.error (.codec (Record.refusal (Entity.key a))), e) ∧
      ∃ u, e.view c.files.snapshot = .ok (.file b u) := by
  obtain ⟨k, a, hretained, ha⟩ := hbad
  obtain ⟨kept, x, rest, hsplit, hkept, hx⟩ :=
    split_refused ⟨a, (o.perm (mergedOver b es)).mem_iff.mpr hretained.mem, ha⟩
  obtain ⟨e, he, hholds⟩ := run_storeBatchIn_refused_bytes hf h hsplit hkept hx
  have hmem : x ∈ (mergedOver b es).values := by
    rw [← (o.perm _).mem_iff, hsplit]
    simp
  obtain ⟨j, hj⟩ := (accepted_of_mem_mergedOver hes hmem).resolve_left hx
  exact ⟨j, x, e, hj, hx, (run_storeAllIn_text hkeeps hf h hb).trans he, hholds.snapshot⟩

/-! ## What is kept -/

/-- What readers find under its key was written, under the same key. -/
theorem get?_readBack [KeyedEntity α] {as : List α}
    (h : (batchOf (as.filterMap Record.readBack?)).get? k = some a) :
    Entity.key a = k ∧ ∃ x ∈ as, Entity.key x = k ∧ Record.readBack? x = some a := by
  obtain ⟨hmem, hkey⟩ := mem_of_get?_batchOf h
  obtain ⟨x, hx, hback⟩ := List.mem_filterMap.mp hmem
  exact ⟨hkey, x, hx, (Record.key_of_readBack? hback).symm.trans hkey, hback⟩

theorem byKey_mergedOver (h : ∀ k a, Retained b es k a → Entity.key a = k) :
    (mergedOver b es).ByKey := by
  intro k a hk
  rcases get?_mergedOver.mp hk with hk | hk
  · exact (mem_of_get?_batchOf hk).2
  · exact h k a hk

/-- Where all that is written is read back, readers get it. -/
theorem batchOf_readBack (hkey : ∀ k a, Retained b es k a → Entity.key a = k)
    (hback : ∀ a ∈ (mergedOver b es).values, Record.readBack? a = some a) :
    batchOf ((o.list (mergedOver b es)).filterMap Record.readBack?) = mergedOver b es := by
  have hsame : (o.list (mergedOver b es)).filterMap Record.readBack? =
      (o.list (mergedOver b es)).filterMap some :=
    List.filterMap_congr fun a ha => hback a ((o.perm _).mem_iff.mp ha)
  rw [hsame, List.filterMap_some]
  exact batchOf_of_perm (byKey_mergedOver hkey) (o.perm _)

theorem storesWhole_iff [KeyedEntity α] (hkeeps : c.policy.keepsPrevious = true)
    (hf : c.files.Siblings) (h : c.files.SavesBytes d b) (hne : es ≠ [])
    (hes : ∀ a ∈ es, Record.Accepted a) :
    StoresWhole c o b es d t ↔ (String.fromUTF8? b).isSome = true ∧
      (∀ k a, Retained b es k a → Entity.key a = k ∧ Record.Accepted a) ∧
      ∀ a ∈ (mergedOver b es).values, Record.readBack? a = some a := by
  constructor
  · rintro ⟨n, e, m, hstore, hget, hbatch, hretained⟩
    obtain ⟨s, hs⟩ : ∃ s, String.fromUTF8? b = some s := by
      cases hs : String.fromUTF8? b with
      | some s => exact ⟨s, rfl⟩
      | none =>
        rw [run_storeAllIn_notText hkeeps hf h hs] at hstore
        cases hstore
    have hgood : ∀ k a, Retained b es k a → Record.Accepted a := by
      intro k a hk
      by_contra hbad
      obtain ⟨_, _, _, -, -, hrun, -⟩ :=
        run_storeAllIn_refused (o := o) hkeeps hf h hs hes ⟨k, a, hk, hbad⟩
      rw [hrun] at hstore
      cases hstore
    have hall : ∀ a ∈ (mergedOver b es).values, Record.Accepted a := by
      intro a ha
      rcases accepted_of_mem_mergedOver hes ha with ha | ⟨k, hk⟩
      · exact ha
      · exact hgood k a hk
    obtain ⟨e', hstore', hget'⟩ := run_storeAllIn_accepted (o := o) hkeeps hf h hs hne hall t
    rw [hstore'] at hstore
    cases hstore
    rw [hget'] at hget
    have hm := congrArg (fun x => x.1.1) hget
    have hm : m = batchOf ((o.list (mergedOver b es)).filterMap Record.readBack?) :=
      (Except.ok.inj hm).symm
    -- Everything that is written is found under the key it has in the map, and so under its own.
    have hfound : ∀ k a, (mergedOver b es).get? k = some a →
        Entity.key a = k ∧ ∃ x ∈ o.list (mergedOver b es), Entity.key x = k ∧
          Record.readBack? x = some a := by
      intro k a hk
      refine get?_readBack ?_
      rw [← hm]
      rcases get?_mergedOver.mp hk with hk | hk
      · exact hbatch k a hk
      · exact hretained k a hk
    refine ⟨by rw [hs]; rfl, fun k a hk => ?_, fun a ha => ?_⟩
    · exact ⟨(hfound k a (get?_mergedOver.mpr (.inr hk))).1, hgood k a hk⟩
    · obtain ⟨k, hk⟩ := Keyed.mem_values.mp ha
      obtain ⟨-, x, hx, hxk, hback⟩ := hfound k a hk
      obtain ⟨j, hj⟩ := Keyed.mem_values.mp ((o.perm _).mem_iff.mp hx)
      rw [(hfound j x hj).1] at hxk
      rw [hxk, hk] at hj
      rw [Option.some.inj hj]
      rwa [Option.some.inj hj] at hback
  · rintro ⟨htext, hretained, hback⟩
    obtain ⟨s, hs⟩ := Option.isSome_iff_exists.mp htext
    have hall : ∀ a ∈ (mergedOver b es).values, Record.Accepted a := by
      intro a ha
      rcases accepted_of_mem_mergedOver hes ha with ha | ⟨k, hk⟩
      · exact ha
      · exact (hretained k a hk).2
    obtain ⟨e, hstore, hget⟩ := run_storeAllIn_accepted (o := o) hkeeps hf h hs hne hall t
    rw [batchOf_readBack (fun k a hk => (hretained k a hk).1) hback] at hget
    exact ⟨_, e, _, hstore, hget, fun k a hk => get?_mergedOver.mpr (.inl hk),
      fun k a hk => get?_mergedOver.mpr (.inr hk)⟩

/-- **Storing over any file.** A snapshot that is no text makes every store fail, with the file left as
it is; one with a record whose entity may not be written, and which the batch does not replace, makes
it fail too. Else the batch and the file's other records are stored, and readers get what their
records are read as. That is all of the batch and all of the other records exactly when the file is a
text in which each of those has its entity's accepted key as its id, and all of what is written reads
back, as every entity does whose numbers do. -/
theorem storeAll_over_anything [KeyedEntity α] [LawfulEntity α] (c : EntityCache α) (o : WriteOrder α)
    (hkeeps : c.policy.keepsPrevious = true) (hf : c.files.Siblings) (b : ByteArray)
    (h : c.files.SavesBytes d b) (es : List α) (hne : es ≠ [])
    (hes : ∀ a ∈ es, Record.Accepted a) (t : Trigger) :
    (String.fromUTF8? b = none →
      (c.storeAllIn o es).run d = (.error (.io c.files.snapshot .notText), d)) ∧
    (∀ s, String.fromUTF8? b = some s →
      ((∀ k a, Retained b es k a → Record.Accepted a) →
        ∃ e, (c.storeAllIn o es).run d = (.ok (mergedOver b es).size, e) ∧
          (c.get t).run e =
            ((.ok (batchOf ((o.list (mergedOver b es)).filterMap Record.readBack?)), t), e)) ∧
      ((∃ k a, Retained b es k a ∧ ¬Record.Accepted a) →
        ∃ k a e, Retained b es k a ∧ ¬Record.Accepted a ∧
          (c.storeAllIn o es).run d = (.error (.codec (Record.refusal (Entity.key a))), e) ∧
          ∃ u, e.view c.files.snapshot = .ok (.file b u))) ∧
    (StoresWhole c o b es d t ↔ (String.fromUTF8? b).isSome = true ∧
      (∀ k a, Retained b es k a → Entity.key a = k ∧ Record.Accepted a) ∧
      ∀ a ∈ (mergedOver b es).values, Record.readBack? a = some a) ∧
    ∀ a : α, LawfulEntity.ReadsBack a → Record.readBack? a = some a := by
  refine ⟨run_storeAllIn_notText hkeeps hf h, fun s hs => ⟨fun hgood => ?_, fun hbad => ?_⟩,
    storesWhole_iff hkeeps hf h hne hes, fun a ha => Record.readBack?_of_readsBack ha⟩
  · refine run_storeAllIn_accepted hkeeps hf h hs hne (fun a ha => ?_) t
    rcases accepted_of_mem_mergedOver hes ha with ha | ⟨k, hk⟩
    · exact ha
    · exact hgood k a hk
  · exact run_storeAllIn_refused hkeeps hf h hs hes hbad

/-! ## Old files -/

/-- The cache of units as it is set up, and a disk with an old file of it. -/
def unitsKept : EntityCache UnitMapping := inDirectory UnitMapping ⟨""⟩ { keepsPrevious := true }

def oldFile (b : ByteArray) : Disk := ⟨[(["unit_mappings.cache"], .file b ⟨0⟩)], [], ⟨0⟩⟩

theorem saves_oldFile (b : ByteArray) : unitsKept.files.SavesBytes (oldFile b) b :=
  ⟨⟨⟨0⟩, rfl⟩, fun _ => nofun⟩

/-- A record, and a line that is none. -/
def brokenLine : ByteArray :=
  "depth\t\x7b\"phenomenon\":\"depth\",\"unit\":\"m\"\x7d\nbroken\n".toUTF8

/-- A byte that begins no character, and a record of a unit that is of no phenomenon. -/
def strayByte : ByteArray := ⟨#[255, 10]⟩

def nameless : ByteArray :=
  "x\t\x7b\"phenomenon\":\"\",\"unit\":\"m\"\x7d\n".toUTF8

/-- A broken line costs only itself. -/
theorem storeAll_over_anything_brokenLine :
    StoresWhole unitsKept .ascending brokenLine [⟨"width", "cm"⟩] (oldFile brokenLine) .new := by
  have hrecords : recordsOf UnitMapping brokenLine = batchOf [⟨"depth", "m"⟩] := by decide +kernel
  obtain ⟨-, -, hiff, hread⟩ := storeAll_over_anything unitsKept .ascending rfl
    (siblings_inDirectory UnitMapping ⟨""⟩ _) brokenLine (saves_oldFile brokenLine)
    [⟨"width", "cm"⟩] (by decide) (by decide) .new
  refine hiff.mpr ⟨by decide +kernel, fun k a hk => ?_, fun a _ => hread a trivial⟩
  obtain ⟨hk, -⟩ := hk
  rw [hrecords] at hk
  obtain ⟨ha, hkey⟩ := mem_of_get?_batchOf hk
  obtain rfl := List.mem_singleton.mp ha
  exact ⟨hkey, by decide⟩

/-- Either makes every later store fail. -/
theorem store_fails_over_stray_byte :
    (unitsKept.storeAll [⟨"width", "cm"⟩]).run (oldFile strayByte) =
        (.error (.io unitsKept.files.snapshot .notText), oldFile strayByte) ∧
      ((unitsKept.storeAll [⟨"width", "cm"⟩]).run (oldFile nameless)).1 =
        .error (.codec (Record.refusal "")) := by
  refine ⟨?_, ?_⟩
  · exact run_storeAllIn_notText (o := .ascending) rfl (siblings_inDirectory UnitMapping ⟨""⟩ _)
      (saves_oldFile strayByte) (by decide +kernel)
  · decide +kernel

end EntityCache

end SensorCache
