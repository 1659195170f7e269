import SensorCache.Cache.Basic
import SensorCache.Proofs.Disk.Siblings

/-!
# The snapshot until its promotion

Everything that a cache does with its files before the one rename leaves the snapshot alone, and the
rename fails without a trace. What follows it, making a new work file, is out of danger when no
directory stands in its place, and a population that came as far as the rename has seen to that
(`noDirectory_of_writeWork`, `noDirectory_of_readWork`). So an operation of a cache that fails has
left the snapshot as it was (`storeAll_error`, `promoteWorkFile_error`).
-/

namespace SensorCache

open Disk

variable {may : Conduct} {d e : Disk}

namespace CacheFiles

/-- The two files are different names in one directory. -/
structure Siblings (f : CacheFiles) : Prop where
  names : ∃ (dir : Path) (s t : String), Path.Plain s ∧ Path.Plain t ∧ s ≠ t ∧
    f = ⟨dir / ⟨s⟩, dir / ⟨t⟩⟩

theorem names_ofKind {kind : String} (h : '/' ∉ kind.toList) :
    Path.Plain (kind ++ ".cache") ∧ Path.Plain (kind ++ ".cache.tmp") ∧
      kind ++ ".cache" ≠ kind ++ ".cache.tmp" := by
  refine ⟨Path.plain_append h (by decide) (by decide), Path.plain_append h (by decide) (by decide), ?_⟩
  intro heq
  have hlen := congrArg (fun t => t.toList.length) heq
  simp [String.toList_append] at hlen

theorem siblings_ofKind {kind : String} (h : '/' ∉ kind.toList) (dir : Path) :
    (ofKind dir kind).Siblings :=
  have ⟨hs, ht, hst⟩ := names_ofKind h
  ⟨dir, _, _, hs, ht, hst, rfl⟩

end CacheFiles

/-- A kind whose name leads to no other directory. -/
class PlainKind (α : Type) [Entity α] : Prop where
  no_slash : '/' ∉ (Entity.kind α).toList

instance : PlainKind UnitMapping := ⟨by decide⟩

instance : PlainKind Offering := ⟨by decide⟩

namespace CacheFiles

variable {f : CacheFiles}

/-! ## Work -/

/-- What is done to the work file keeps `R`, and nothing at all does too. -/
structure WorkKeeps (R : Disk → Disk → Prop) (f : CacheFiles) : Prop where
  refl (d : Disk) : R d d
  clear (d : Disk) : R d (d.perform (.truncate f.work)).2
  append (bytes : ByteArray) (d : Disk) : R d (d.perform (.append f.work bytes)).2

/-- Work spares the snapshot. -/
theorem Siblings.workKeeps (hf : f.Siblings) : f.WorkKeeps (Spares f.snapshot) := by
  obtain ⟨dir, s, t, hs, ht, hst, rfl⟩ := hf.names
  exact ⟨.refl, spares_truncate hs ht hst, spares_append hs ht hst⟩

variable {α : Type} [Entity α] {R : Disk → Disk → Prop}

theorem keeps_readRecords (hrefl : ∀ d, R d d) (p : Path) : (readRecords α p).Keeps R := by
  have hbytes : (Disk.readBytes p).Keeps R :=
    Routine.keeps_op fun d => by rw [perform_read]; exact hrefl d
  have htext : (Disk.readText p).Keeps R := hbytes.bind fun _ => by split <;> trivial
  refine (Attempt.keeps_always htext).bind fun x => ?_
  split
  · exact Attempt.keeps_pure _
  · exact Attempt.keeps_pure _
  · exact Attempt.keeps_fail _

namespace WorkKeeps

variable (hw : f.WorkKeeps R)
include hw

theorem clearWork : f.clearWork.Keeps R := Attempt.Keeps.because (Routine.keeps_op hw.clear)

theorem appendBytes (bytes : ByteArray) : (Disk.appendBytes f.work bytes).Keeps R :=
  Routine.keeps_op (hw.append bytes)

theorem appendWork (a : α) : (f.appendWork a).Keeps R := by
  unfold CacheFiles.appendWork
  split
  · exact Attempt.keeps_fail _
  · exact (hw.appendBytes _).because

theorem writeWork (es : List α) : (f.writeWork es).Keeps R := by
  refine hw.clearWork.bind fun _ => (hw.appendBytes _).because.bind fun _ => ?_
  split
  · exact Attempt.keeps_fail _
  · exact Attempt.keeps_pure _

end WorkKeeps

/-! ## No directory in the place of the work file -/

theorem noDirectory_of_spares (hf : f.Siblings) (h : Spares f.snapshot d e)
    (hd : d.NoDirectory f.work) : e.NoDirectory f.work := by
  obtain ⟨dir, s, t, hs, ht, hst, rfl⟩ := hf.names
  exact h.directories.noDirectory ht hd

theorem noDirectory_of_clearWork (hf : f.Siblings) (hmay : may.Within (Spares f.snapshot))
    (h : f.clearWork.Ends may d (.ok ()) e) : e.NoDirectory f.work := by
  obtain ⟨x, hx, hok⟩ := Attempt.ends_because.mp h
  obtain rfl : x = .ok () := by cases x <;> cases hok; rfl
  obtain ⟨m, -, hp | ⟨⟨_, hfault⟩, -⟩⟩ := hmay (Routine.ends_op.mp hx)
  · obtain ⟨dir, s, t, hs, ht, hst, rfl⟩ := hf.names
    exact (noDirectory_of_truncate ht hp).2
  · cases hfault

theorem noDirectory_of_writeWork (hf : f.Siblings) (hmay : may.Within (Spares f.snapshot))
    {es : List α} {n : Nat} (h : (f.writeWork es).Ends may d (.ok n) e) : e.NoDirectory f.work := by
  rcases Attempt.ends_bind.mp h with ⟨_, m, hclear, hrest⟩ | ⟨_, _, hbad⟩
  · refine noDirectory_of_spares hf (d := m) ?_ (noDirectory_of_clearWork hf hmay hclear)
    refine Routine.Keeps.ends hmay .refl .trans ?_ hrest
    refine (hf.workKeeps.appendBytes _).because.bind fun _ => ?_
    split
    · exact Attempt.keeps_fail _
    · exact Attempt.keeps_pure _
  · cases hbad

/-- A file that was read, or was not there, is no directory. -/
theorem noDirectory_of_read {p : Path} {x : Except OsError ByteArray}
    (hx : x.isOk = true ∨ x = .error .notFound) (h : d.perform (.read p) = (x, e)) :
    e.NoDirectory p := by
  have he : e = d := by rw [← perform_read d p, h]
  subst he
  have hp : (e.onPlace p fun l => (e.readFile l, e)).1 = x := by
    rw [show (e.onPlace p fun l => (e.readFile l, e)) = _ from h]
  intro t
  show (e.onPlace p fun l => (e.find l, e)).1 ≠ _
  unfold onPlace at hp ⊢
  split at hp
  · simp
  · next l hl =>
    dsimp only at hp ⊢
    unfold readFile at hp
    unfold find
    split at hp
    · next hn => simp [hn]
    · subst hp
      rcases hx with hx | hx <;> cases hx
    · next hn => simp [hn]

theorem noDirectory_of_readWork (hmay : may.Within R) {data : Keyed α}
    (h : (f.readWork α).Ends may d (.ok data) e) : e.NoDirectory f.work := by
  rcases Attempt.ends_bind.mp h with ⟨x, m, hx, hrest⟩ | ⟨_, hbad, _⟩
  · obtain ⟨y, hy, hxy⟩ := Attempt.ends_caught.mp hx
    obtain rfl : x = y := Except.ok.inj hxy
    -- The text was there or its file was missing; another failure would have been passed on.
    have hend : e = m ∧ (x.isOk = true ∨ x = .error .notFound) := by
      cases x with
      | ok s =>
        obtain ⟨-, rfl⟩ := Attempt.ends_pure.mp hrest
        exact ⟨rfl, .inl rfl⟩
      | error z =>
        cases z with
        | notFound =>
          obtain ⟨-, rfl⟩ := Attempt.ends_pure.mp hrest
          exact ⟨rfl, .inr rfl⟩
        | _ => cases (Attempt.ends_fail.mp hrest).1
    obtain ⟨rfl, hx'⟩ := hend
    have hread : ∃ z : Except OsError ByteArray, (z.isOk = true ∨ z = .error .notFound) ∧
        may (.read f.work) d z e := by
      rcases Attempt.ends_bind.mp hy with ⟨bytes, n, hn, htext⟩ | ⟨z, hz, hxz⟩
      · have hne : e = n := by
          split at htext
          · exact (Attempt.ends_pure.mp htext).2
          · exact (Attempt.ends_fail.mp htext).2
        exact ⟨.ok bytes, .inl rfl, hne ▸ Routine.ends_op.mp hn⟩
      · subst hxz
        refine ⟨.error z, .inr ?_, Routine.ends_op.mp hz⟩
        rcases hx' with hx' | hx'
        · cases hx'
        · cases hx'
          rfl
    obtain ⟨z, hz, hmz⟩ := hread
    obtain ⟨n, -, hp | ⟨⟨_, hfault⟩, -⟩⟩ := hmay hmz
    · exact noDirectory_of_read hz hp
    · subst hfault
      rcases hz with hz | hz <;> cases hz
  · obtain ⟨_, _, hbad'⟩ := Attempt.ends_caught.mp hbad
    cases hbad'

/-! ## Promotion -/

/-- In this world the empty work file can be made after a successful rename. -/
def Recreates (f : CacheFiles) (may : Conduct) : Prop :=
  ∀ {d m e : Disk} {y : OsError}, d.NoDirectory f.work → may (.rename f.work f.snapshot) d (.ok ()) m →
    ¬ may (.truncate f.work) m (.error y) e

/-- Where operations do not fail by themselves, it always can. -/
theorem recreates_among (hf : f.Siblings) : f.Recreates (.among (Spares f.snapshot)) := by
  intro d m e y hd
  obtain ⟨dir, s, t, hs, ht, hst, rfl⟩ := hf.names
  rintro ⟨d', hd', hren⟩ ⟨m', hm', htrunc⟩
  have hno := hd'.directories.noDirectory ht hd
  obtain ⟨x, hx⟩ | ⟨-, hsame, l, hl⟩ := rename_join ht hs hno
  · rw [hx] at hren
    cases hren
  · rw [hren] at hsame
    have hsame' := hsame.trans hm'.directories
    have hok := truncate_ok ht (hsame'.enter_ok hl) (hsame'.noDirectory ht hno)
    rw [htrunc] at hok
    cases hok

/-- A promotion that fails did not come to replace the snapshot. -/
theorem promoteWork_error (hf : f.Siblings) (hmay : may.Within (Spares f.snapshot))
    (hre : f.Recreates may) (hd : d.NoDirectory f.work) {y : CacheError}
    (h : f.promoteWork.Ends may d (.error y) e) : Spares f.snapshot d e := by
  rcases Attempt.ends_bind.mp h with ⟨_, m, hren, hclear⟩ | ⟨_, hren, _⟩
  · obtain ⟨x, hx, hok⟩ := Attempt.ends_because.mp hren
    obtain rfl : x = .ok () := by cases x <;> cases hok; rfl
    obtain ⟨x, hx', herr⟩ := Attempt.ends_because.mp hclear
    cases x with
    | ok _ => cases herr
    | error z => exact absurd (Routine.ends_op.mp hx') (hre hd (Routine.ends_op.mp hx))
  · obtain ⟨x, hx, herr⟩ := Attempt.ends_because.mp hren
    cases x with
    | ok _ => cases herr
    | error z =>
      obtain ⟨m, hm, hp | ⟨-, hfault⟩⟩ := hmay (Routine.ends_op.mp hx)
      · have hno := noDirectory_of_spares hf hm hd
        obtain ⟨dir, s, t, hs, ht, hst, rfl⟩ := hf.names
        obtain ⟨w, hw⟩ | ⟨hok, -⟩ := rename_join ht hs hno
        · rw [hp] at hw
          cases hw
          exact hm
        · rw [hp] at hok
          cases hok
      · exact hm.trans hfault

end CacheFiles

/-! ## Operations of a cache -/

namespace EntityCache

variable {α : Type} [Entity α] {c : EntityCache α}

/-- The cache of a kind in a directory. -/
def inDirectory (α : Type) [Entity α] (dir : Path) (policy : CachePolicy) : EntityCache α :=
  ⟨.ofKind dir (Entity.kind α), policy⟩

theorem siblings_inDirectory (α : Type) [Entity α] [PlainKind α] (dir : Path)
    (policy : CachePolicy) : (inDirectory α dir policy).files.Siblings :=
  CacheFiles.siblings_ofKind PlainKind.no_slash dir

theorem keeps_withPrevious {R : Disk → Disk → Prop} (hrefl : ∀ d, R d d) (batch : Keyed α) :
    (c.withPrevious batch).Keeps R :=
  (CacheFiles.keeps_readRecords hrefl _).bind fun _ => Attempt.keeps_pure _

/-- A batch that could not be stored has left the snapshot as it was. -/
theorem storeBatch_error (hf : c.files.Siblings) (hmay : may.Within (Spares c.files.snapshot))
    (hre : c.files.Recreates may) {batch : Keyed α} {y : CacheError}
    (h : (c.storeBatch batch).Ends may d (.error y) e) : Spares c.files.snapshot d e := by
  have hwrite := hf.workKeeps.writeWork batch.values
  rcases Attempt.ends_bind.mp h with ⟨_, m, hm, hrest⟩ | ⟨_, hm, _⟩
  · refine (hwrite.ends hmay .refl .trans hm).trans ?_
    rcases Attempt.ends_bind.mp hrest with ⟨_, _, _, hbad⟩ | ⟨_, hpromote, _⟩
    · cases (Attempt.ends_pure.mp hbad).1
    · have hno := CacheFiles.noDirectory_of_writeWork hf hmay hm
      exact CacheFiles.promoteWork_error hf hmay hre hno hpromote
  · exact hwrite.ends hmay .refl .trans hm

/-- So has one to which the entities of the snapshot were added. -/
theorem storeWithPrevious_error (hf : c.files.Siblings)
    (hmay : may.Within (Spares c.files.snapshot)) (hre : c.files.Recreates may) {batch : Keyed α}
    {y : CacheError}
    (h : (do c.storeBatch (← c.withPrevious batch)).Ends may d (.error y) e) :
    Spares c.files.snapshot d e := by
  have hread : (c.withPrevious batch).Keeps (Spares c.files.snapshot) :=
    keeps_withPrevious .refl batch
  rcases Attempt.ends_bind.mp h with ⟨_, m, hm, hrest⟩ | ⟨_, hm, _⟩
  · exact (hread.ends hmay .refl .trans hm).trans
      (storeBatch_error hf hmay hre hrest)
  · exact hread.ends hmay .refl .trans hm

theorem storeAll_error (hf : c.files.Siblings) (hmay : may.Within (Spares c.files.snapshot))
    (hre : c.files.Recreates may) {es : List α} {y : CacheError}
    (h : (c.storeAll es).Ends may d (.error y) e) : Spares c.files.snapshot d e := by
  unfold storeAll at h
  split at h
  · exact storeWithPrevious_error hf hmay hre h
  · exact storeBatch_error hf hmay hre h

theorem promoteWorkFile_error (hf : c.files.Siblings)
    (hmay : may.Within (Spares c.files.snapshot)) (hre : c.files.Recreates may) {y : CacheError}
    (h : c.promoteWorkFile.Ends may d (.error y) e) : Spares c.files.snapshot d e := by
  have hread : (c.files.readWork α).Keeps (Spares c.files.snapshot) :=
    CacheFiles.keeps_readRecords .refl _
  rcases Attempt.ends_bind.mp h with ⟨streamed, m, hm, hrest⟩ | ⟨_, hm, _⟩
  · refine (hread.ends hmay .refl .trans hm).trans ?_
    have hno := CacheFiles.noDirectory_of_readWork hmay hm
    split at hrest
    · exact storeWithPrevious_error hf hmay hre hrest
    · rcases Attempt.ends_bind.mp hrest with ⟨_, _, _, hbad⟩ | ⟨_, hpromote, _⟩
      · cases (Attempt.ends_pure.mp hbad).1
      · exact CacheFiles.promoteWork_error hf hmay hre hno hpromote
  · exact hread.ends hmay .refl .trans hm

end EntityCache

end SensorCache
