import SensorCache.Proofs.Cache.Opening
import SensorCache.Proofs.Refresh.FailedUpdate
import SensorCache.Proofs.Refresh.Shutdown

/-!
# Caches leave the lock alone

The files of a cache and the lock of its directory are different names, so an update of the cache
does nothing to the lock, as long as no directory stands among them (`FilesOnly`): one in the place
of a work file would be moved with all that is reached through it.
-/

namespace SensorCache

open Disk Time

variable {may : Conduct} {d e : Disk} {dir : Path}

/-! ## The lock in a directory of files -/

theorem Disk.Spares.calm {s : String} (h : Spares (dir / ⟨s⟩) d e) :
    Calm (FilesOnly dir) (dir / ⟨s⟩) d e :=
  fun hd => ⟨h.directories.filesOnly hd, fun _ hn => h.view.trans hn⟩

/-- A directory that is there is not made again. -/
theorem ends_ensureDirectory {R : Disk → Disk → Prop} {fine : Disk → Prop} {q : Path}
    (hmay : may.Within R) (hrefl : ∀ d, R d d) (htrans : ∀ {a b c}, R a b → R b c → R a c)
    (hstays : ∀ {d e}, R d e → fine d → fine e) (hthere : ∀ {d}, fine d → ∃ l, d.enter q = .ok l)
    {x : Except OsError Unit} (h : (ensureDirectory q).Ends may d x e) (hd : fine d) : R d e := by
  have hsettle : ∀ {y : OsError} {m : Disk}, R d m → (settleDirectory q y).Ends may m x e → R d e :=
    fun hm h => htrans hm ((keeps_settleDirectory hrefl q _).ends hmay hrefl htrans h)
  unfold ensureDirectory makeDirectories at h
  split at h
  · obtain ⟨-, rfl⟩ := Attempt.ends_pure.mp h
    exact hrefl e
  · next hq =>
    rcases Attempt.ends_bind.mp h with ⟨y, m, hy, hrest⟩ | ⟨_, hbad, _⟩
    · obtain ⟨z, hz, hyz⟩ := Attempt.ends_caught.mp hy
      obtain rfl : y = z := Except.ok.inj hyz
      obtain ⟨m', hm', hp | ⟨⟨z, rfl⟩, hf⟩⟩ := hmay (Routine.ends_op.mp hz)
      · obtain ⟨l, hl⟩ := hthere (hstays hm' hd)
        obtain ⟨u, hu⟩ := isDirectoryAt_iff.mp (enter_eq_ok.mp hl).2
        have hmake : m'.perform (.makeDirectory q) = (.error .alreadyExists, m') := by
          show m'.onPlace q _ = _
          rw [onPlace_of_enter (by simpa using hq) hl]
          simp [makeDirectoryAt, hu]
        rw [hmake] at hp
        cases hp
        exact hsettle hm' hrest
      · exact hsettle (htrans hm' hf) hrest
    · obtain ⟨_, _, hbad'⟩ := Attempt.ends_caught.mp hbad
      cases hbad'

theorem enters_lockParent (h : d.FilesOnly dir) :
    ∃ l, d.enter (UpdateLock.inDirectory dir).path.parent = .ok l := by
  obtain ⟨l, hl⟩ := h.enters
  rw [path_inDirectory]
  exact ⟨l, enter_parent plain_lockName hl⟩

theorem Disk.Spares.leaves {s : String} (h : Spares (dir / ⟨s⟩) d e) (hclock : e.clock = d.clock) :
    Leaves (FilesOnly dir) (dir / ⟨s⟩) d e := by
  intro hd
  refine ⟨h.directories.filesOnly hd, Int.le_of_eq (congrArg Instant.nanos hclock.symm), fun n => ?_⟩
  rw [h.view]

/-- The lock's operations keep the directories, and so where the lock is. -/
theorem lockGround_filesOnly (dir : Path) :
    LockGround (.inDirectory dir) (FilesOnly dir) where
  prepare {_ d e _} hmay h := by
    intro hd
    have hcalm : Calm (FilesOnly dir) (UpdateLock.inDirectory dir).path d e :=
      ends_ensureDirectory hmay .refl .trans (fun hc hd => (hc hd).1) enters_lockParent h hd
    exact hcalm hd
  create d hd := (sameDirectories_create plain_lockName d).filesOnly hd
  remove d hd := (sameDirectories_remove plain_lockName d).filesOnly hd

/-- Neighbours of a process in such a directory. -/
theorem neighbourhood_filesOnly {times : LockTimes} {patient : Prop}
    (hmay : may.Within
      (Neighbourly (FilesOnly dir) times.theirs patient (UpdateLock.inDirectory dir).path))
    (hcreates : ∀ {d t e}, may (.create (UpdateLock.inDirectory dir).path) d (.ok t) e → times.ours t)
    (hremoves : ∀ {d s e t}, may (.remove (UpdateLock.inDirectory dir).path) d (.error (.other s)) e →
      e.FileOf (UpdateLock.inDirectory dir).path t → times.stuck t)
    (hfinds : ∀ {d s e n}, patient →
      may (.find (UpdateLock.inDirectory dir).path) d (.error (.other s)) e →
      e.view (UpdateLock.inDirectory dir).path = .ok n → times.hidden n.modified) :
    Neighbourhood may (.inDirectory dir) (FilesOnly dir) times patient where
  within := hmay
  creates := hcreates
  removes := hremoves
  finds := hfinds
  prepare {d e _} h := by
    intro hd
    have hmade : Neighbourly (FilesOnly dir) times.theirs patient (UpdateLock.inDirectory dir).path
        d e := ends_ensureDirectory hmay .refl .trans (fun hc hd => (hc hd).1) enters_lockParent h hd
    exact hmade hd
  create d hd := (sameDirectories_create plain_lockName d).filesOnly hd
  remove d hd := (sameDirectories_remove plain_lockName d).filesOnly hd

/-! ## Updates -/

namespace EntityCache

variable {α σ : Type} {R : Disk → Disk → Prop}

theorem keeps_requiresUpdate (hrefl : ∀ d, R d d) (c : EntityCache α) :
    c.requiresUpdate.Keeps R := by
  refine Routine.Keeps.bind (Routine.keeps_op hrefl) fun now => ?_
  refine Routine.Keeps.bind ((keeps_look hrefl _).bind fun n => by split <;> trivial) fun b => ?_
  split
  · exact Routine.Keeps.bind ((keeps_look hrefl _).bind fun _ => trivial) fun _ => trivial
  · trivial

section Keeps

variable {c : EntityCache α} {src : Source α} (hw : c.files.WorkKeeps R)
  (hrename : ∀ d, R d (d.perform (.rename c.files.work c.files.snapshot)).2)
include hw hrename

theorem keeps_promoteWork : c.files.promoteWork.Keeps R :=
  Attempt.Keeps.bind (Attempt.Keeps.because (Routine.keeps_op hrename)) fun _ => hw.clearWork

variable [Entity α]

theorem keeps_storeBatch (batch : Keyed α) : (c.storeBatch batch).Keeps R :=
  (hw.writeWork _).bind fun _ =>
    (keeps_promoteWork hw hrename).bind fun _ => Attempt.keeps_pure _

theorem keeps_storeAll (as : List α) : (c.storeAll as).Keeps R := by
  unfold storeAll
  split
  · exact (keeps_withPrevious hw.refl _).bind fun _ => keeps_storeBatch hw hrename _
  · exact keeps_storeBatch hw hrename _

theorem keeps_promoteWorkFile : c.promoteWorkFile.Keeps R := by
  refine Attempt.Keeps.bind (CacheFiles.keeps_readRecords hw.refl _) fun streamed => ?_
  split
  · exact (keeps_withPrevious hw.refl _).bind fun _ => keeps_storeBatch hw hrename _
  · exact (keeps_promoteWork hw hrename).bind fun _ => Attempt.keeps_pure _

theorem keeps_updateBulk (hsrc : src.Keeps R) (limit : Span) :
    (c.updateBulk src limit : Course σ (Except RefreshError Nat)).Keeps R := by
  refine (Course.keeps_markNow hw.refl _).bind fun _ => ?_
  refine (SourceCall.keeps_awaited (fun a _ => nomatch a) hsrc.fetch).bind fun r => ?_
  refine (Course.keeps_modify _).bind fun _ => ?_
  split
  · trivial
  · trivial
  · trivial
  · refine Course.keeps_isInterrupted.bind fun b => ?_
    split
    · trivial
    · refine (Course.keeps_markNow hw.refl _).bind fun _ => ?_
      exact (Course.keeps_ofRoutine (keeps_storeAll hw hrename _)).bind fun _ => trivial

theorem keeps_updateStreaming (hsrc : src.Keeps R) (limit : Span) :
    (c.updateStreaming src limit : Course σ (Except RefreshError Nat)).Keeps R := by
  refine (Course.keeps_ofRoutine hw.clearWork).bind fun x => ?_
  split
  · trivial
  · refine (Course.keeps_markNow hw.refl _).bind fun _ => ?_
    refine (SourceCall.keeps_awaited (fun a x => keeps_item hw a x.1 x.2) hsrc.stream).bind
      fun r => ?_
    refine (Course.keeps_modify _).bind fun _ => ?_
    split
    · trivial
    · trivial
    · split
      · trivial
      · trivial
      · refine Course.keeps_isInterrupted.bind fun b => ?_
        split
        · trivial
        · exact (Course.keeps_ofRoutine (keeps_promoteWorkFile hw hrename)).bind fun _ => trivial

theorem keeps_update (hsrc : src.Keeps R) (limits : CallLimits) :
    (c.update src limits : Course σ (Except RefreshError Nat)).Keeps R := by
  unfold update
  split
  · exact keeps_updateStreaming hw hrename hsrc _
  · exact keeps_updateBulk hw hrename hsrc _

end Keeps

/-- A kind's files have other names than the lock. -/
theorem lockName_ne (kind : String) :
    UpdateLock.fileName ≠ kind ++ ".cache" ∧ UpdateLock.fileName ≠ kind ++ ".cache.tmp" := by
  constructor <;>
  · intro h
    have hlast := congrArg (fun t : String => t.toList.getLast?) h
    simp [String.toList_append, UpdateLock.fileName] at hlast

variable [Entity α] [PlainKind α]

/-- An update of a cache keeps whatever is kept by all that spares the lock of its directory. -/
theorem keeps_update_of_spares (hrefl : ∀ d, R d d)
    (hspares : ∀ {d e : Disk}, (d.FilesOnly dir → Spares (dir / ⟨UpdateLock.fileName⟩) d e) →
      e.clock = d.clock → R d e) (policy : CachePolicy) {src : Source α} (hsrc : src.Keeps R)
    (limits : CallLimits) :
    ((inDirectory α dir policy).update src limits : Course σ (Except RefreshError Nat)).Keeps R := by
  obtain ⟨hs, ht, -⟩ := CacheFiles.names_ofKind (PlainKind.no_slash (α := α))
  obtain ⟨hls, hlt⟩ := lockName_ne (Entity.kind α)
  refine keeps_update ⟨hrefl, fun d => ?_, fun bytes d => ?_⟩ (fun d => ?_) hsrc limits
  · exact hspares (fun _ => spares_truncate plain_lockName ht hlt d) (clock_perform d _)
  · exact hspares (fun _ => spares_append plain_lockName ht hlt bytes d) (clock_perform d _)
  · refine hspares (fun hd => ?_) (clock_perform d _)
    exact spares_rename plain_lockName ht hs hlt hls (hd.names ht)

/-- The caches of a directory leave its lock alone, if their sources do. -/
theorem leavesLock_target (dir : Path) (policy : CachePolicy) {src : Source α}
    (hsrc : src.Keeps (Calm (FilesOnly dir) (UpdateLock.inDirectory dir).path)) :
    ((inDirectory α dir policy).target src : Target σ).LeavesLock (FilesOnly dir)
      (.inDirectory dir) :=
  ⟨keeps_requiresUpdate .refl _, fun limits =>
    keeps_update_of_spares Calm.refl (fun hspares _ hd => (hspares hd).calm hd) policy hsrc limits⟩

/-- They do no more about it than neighbours may. -/
theorem updateKeeps_target {theirs : Instant → Prop} {patient : Prop} (dir : Path)
    (policy : CachePolicy) {src : Source α}
    (hsrc : src.Keeps
      (Neighbourly (FilesOnly dir) theirs patient (UpdateLock.inDirectory dir).path)) :
    ((inDirectory α dir policy).target src : Target σ).UpdateKeeps
      (Neighbourly (FilesOnly dir) theirs patient (UpdateLock.inDirectory dir).path) :=
  fun limits => keeps_update_of_spares Neighbourly.refl
    (fun hspares hclock hd => ((hspares hd).leaves hclock).neighbourly hd) policy hsrc limits

end EntityCache

end SensorCache
