import SensorCache.Cache.Lock
import SensorCache.Proofs.Disk.Siblings

/-!
# Holding the lock

What is known of the lock file while it is there and others leave it alone (`Calm`): nobody gets
the lock (`ends_tryAcquire`), and it goes only when it is removed, which a guard does only if its
own acquisition is the one that is held (`ends_release`).

The disk may have to be in some order for this, for instance with the lock's directory in its
place; `LockGround` says that the lock's own operations keep that order.
-/

namespace SensorCache

open Disk

variable {fine : Disk → Prop} {p : Path} {d e f : Disk} {t : Instant} {may : Conduct}

namespace Instant

variable {limit : Time.Span} {now later : Instant}

/-- What is too old stays so. -/
theorem lt_since_of_le (h : limit < now.since t) (hle : now ≤ later) : limit < later.since t := by
  have hover : limit.nanos < (now.nanos - t.nanos).toNat := h
  have hnanos : now.nanos ≤ later.nanos := hle
  show limit.nanos < (later.nanos - t.nanos).toNat
  omega

theorem lt_of_lt_since (h : limit < now.since t) : t < now := by
  have hover : limit.nanos < (now.nanos - t.nanos).toNat := h
  show t.nanos < now.nanos
  omega

end Instant

namespace Disk

/-! ## What stays -/

/-- If the disk is fine it stays so, and what is seen at `p` stays. -/
def Calm (fine : Disk → Prop) (p : Path) (d e : Disk) : Prop :=
  fine d → fine e ∧ ∀ n, d.view p = .ok n → e.view p = .ok n

theorem Calm.refl (d : Disk) : Calm fine p d d := fun h => ⟨h, fun _ hn => hn⟩

theorem Calm.trans (h : Calm fine p d e) (k : Calm fine p e f) : Calm fine p d f := fun hd =>
  ⟨(k (h hd).1).1, fun n hn => (k (h hd).1).2 n ((h hd).2 n hn)⟩

/-- Something is there. -/
def Present (d : Disk) (p : Path) : Prop := ∃ n, d.view p = .ok n

/-- A path at which there could be something, and is nothing. -/
def Missing (d : Disk) (p : Path) : Prop := d.view p = .error .notFound

/-- There is a file, last changed at `t`. -/
def FileOf (d : Disk) (p : Path) (t : Instant) : Prop := ∃ c, d.view p = .ok (.file c t)

instance (d : Disk) (p : Path) : Decidable (d.Present p) :=
  match h : d.view p with
  | .ok n => .isTrue ⟨n, h⟩
  | .error _ => .isFalse fun ⟨n, hn⟩ => by
    rw [h] at hn
    cases hn

instance (d : Disk) (p : Path) (t : Instant) : Decidable (d.FileOf p t) :=
  decidable_of_iff ((d.view p).toOption.map (fun n => (n.isDirectory, n.modified)) =
    some (false, t)) <| by
    unfold FileOf
    cases d.view p with
    | error _ => simp [Except.toOption]
    | ok n => cases n <;> simp [Except.toOption, Node.isDirectory, Node.modified]

theorem Missing.not_present (h : d.Missing p) : ¬d.Present p := by
  rintro ⟨n, hn⟩
  rw [Missing, hn] at h
  cases h

theorem FileOf.unique {u : Instant} (h : d.FileOf p t) (k : d.FileOf p u) : t = u := by
  obtain ⟨c, hc⟩ := h
  obtain ⟨b, hb⟩ := k
  rw [hc] at hb
  cases hb
  rfl

theorem FileOf.present (h : d.FileOf p t) : d.Present p :=
  have ⟨c, hc⟩ := h
  ⟨.file c t, hc⟩

theorem Calm.present (h : Calm fine p d e) (hd : fine d) (hp : d.Present p) : e.Present p :=
  have ⟨n, hn⟩ := hp
  ⟨n, (h hd).2 n hn⟩

/-- What is there is not created. -/
theorem create_of_present (h : d.Present p) : d.perform (.create p) = (.error .alreadyExists, d) := by
  obtain ⟨n, hn⟩ := h
  obtain ⟨l, hl, hnode⟩ := view_eq_ok.mp hn
  show d.onPlace p d.createFile = _
  unfold onPlace
  rw [hl]
  simp [createFile, hnode]

/-- What was created is an empty file of that time. -/
theorem file_of_create (h : d.perform (.create p) = (.ok t, e)) :
    e.view p = .ok (.file .empty t) := by
  have h' : d.onPlace p d.createFile = (.ok t, e) := h
  unfold onPlace at h'
  split at h'
  · cases h'
  · next l hl =>
    unfold createFile at h'
    split at h'
    · cases h'
    · next hn =>
      cases h'
      have hne : l ≠ [] := by
        rintro rfl
        cases hn
      have hdir : d.isDirectoryAt l = false := by simp [isDirectoryAt, hn]
      have hsame := SameDirectories.put_file hne hdir .empty d.clock
      refine view_eq_ok.mpr ⟨l, hsame.locate_ok hl, ?_⟩
      rw [node?_put hne, if_pos rfl]

/-- It was created at the time of the clock. -/
theorem clock_of_create (h : d.perform (.create p) = (.ok t, e)) : t = d.clock := by
  have h' : d.onPlace p d.createFile = (.ok t, e) := h
  unfold onPlace at h'
  split at h'
  · cases h'
  · unfold createFile at h'
    split at h'
    · cases h'
    · cases h'
      rfl

theorem present_of_create (h : d.perform (.create p) = (.ok t, e)) : e.Present p :=
  ⟨_, file_of_create h⟩

/-- Only a file is removed, and then nothing is there. -/
theorem remove_of_ok {u : Unit} (h : d.perform (.remove p) = (.ok u, e)) :
    (∃ t, d.FileOf p t) ∧ ¬e.Present p := by
  have h' : d.onPlace p d.removeFile = (.ok u, e) := h
  unfold onPlace at h'
  split at h'
  · cases h'
  · next l hl =>
    unfold removeFile at h'
    split at h'
    · cases h'
    · cases h'
    · next c t hn =>
      cases h'
      have hne : l ≠ [] := by
        rintro rfl
        cases hn
      have hdir : d.isDirectoryAt l = false := by simp [isDirectoryAt, hn, Node.isDirectory]
      refine ⟨⟨t, c, view_eq_ok.mpr ⟨l, hl, hn⟩⟩, ?_⟩
      rintro ⟨n, hview⟩
      obtain ⟨l', hl', hn'⟩ := view_eq_ok.mp hview
      rw [(SameDirectories.erase hne hdir).locate_ok hl] at hl'
      cases hl'
      rw [node?_erase hne, if_pos rfl] at hn'
      cases hn'

/-- What is seen does not depend on the time. -/
theorem view_tick {n : Node} (h : d.view p = .ok n) (t : Time.Span) : (d.tick t).view p = .ok n :=
  (view_clock d (d.clock.add t) p).trans h

/-- A removal that fails changes nothing. -/
theorem remove_of_error {x : OsError} (h : d.perform (.remove p) = (.error x, e)) : e = d := by
  have h' : d.onPlace p d.removeFile = (.error x, e) := h
  unfold onPlace at h'
  split at h'
  · cases h'
    rfl
  · unfold removeFile at h'
    split at h' <;> cases h' <;> rfl

theorem create_of_error {x : OsError} (h : d.perform (.create p) = (.error x, e)) : e = d := by
  have h' : d.onPlace p d.createFile = (.error x, e) := h
  unfold onPlace at h'
  split at h'
  · cases h'
    rfl
  · unfold createFile at h'
    split at h' <;> cases h'
    rfl

end Disk

/-! ## The lock's own operations -/

theorem plain_lockName : Path.Plain UpdateLock.fileName :=
  ⟨by decide, by decide, by decide, by decide⟩

theorem path_inDirectory (dir : Path) :
    (UpdateLock.inDirectory dir).path = dir / ⟨UpdateLock.fileName⟩ := rfl

/-- The lock's operations keep the disk fine, and making the lock's directory leaves a lock file
that is there. -/
structure LockGround (l : UpdateLock) (fine : Disk → Prop) : Prop where
  prepare {may : Conduct} {d e : Disk} {x : Except OsError Unit} : may.Within (Calm fine l.path) →
    (Disk.ensureDirectory l.path.parent).Ends may d x e → Calm fine l.path d e
  create (d : Disk) : fine d → fine (d.perform (.create l.path)).2
  remove (d : Disk) : fine d → fine (d.perform (.remove l.path)).2

/-- What is seen somewhere stays when a directory is made. -/
theorem Disk.view_makeDirectory {n : Node} (h : d.view p = .ok n) (q : Path) :
    (d.perform (.makeDirectory q)).2.view p = .ok n := by
  show (d.onPlace q d.makeDirectoryAt).2.view p = .ok n
  unfold onPlace
  split
  · exact h
  · next a _ =>
    unfold makeDirectoryAt
    split
    · exact h
    · next hnone =>
      have ha : a ≠ [] := by
        rintro rfl
        cases hnone
      obtain ⟨l, hl, hn⟩ := view_eq_ok.mp h
      have hla : l ≠ a := by
        rintro rfl
        rw [hnone] at hn
        cases hn
      refine view_eq_ok.mpr ⟨l, ?_, ?_⟩
      · refine locate_of_directories (d := d) rfl (fun m hm => ?_) hl
        unfold isDirectoryAt at hm ⊢
        rw [node?_put ha]
        split
        · rfl
        · exact hm
      · rw [node?_put ha, if_neg hla]
        exact hn

theorem Disk.keeps_settleDirectory {R : Disk → Disk → Prop} (hrefl : ∀ d, R d d) (q : Path)
    (x : OsError) : (settleDirectory q x).Keeps R := by
  refine (Attempt.keeps_always (keeps_look hrefl q)).bind fun y => ?_
  split
  · split
    · exact Attempt.keeps_pure _
    · exact Attempt.keeps_fail _
  · exact Attempt.keeps_fail _

/-- Making a directory and those it lies in keeps what making any one of them does. -/
theorem Disk.keeps_ensureDirectory {R : Disk → Disk → Prop} (hrefl : ∀ d, R d d)
    (hmake : ∀ q d, R d (d.perform (.makeDirectory q)).2) (p : Path) :
    (ensureDirectory p).Keeps R := by
  have hone : ∀ q, (makeDirectory q).Keeps R := fun q => Routine.keeps_op (hmake q)
  have hsettle := keeps_settleDirectory hrefl
  unfold ensureDirectory
  generalize p.text.length + 1 = n
  induction n generalizing p with
  | zero => exact Attempt.keeps_fail _
  | succ n ih =>
    unfold makeDirectories
    split
    · exact Attempt.keeps_pure _
    · refine (Attempt.keeps_always (hone p)).bind fun x => ?_
      split
      · exact Attempt.keeps_pure _
      · refine (ih _).bind fun _ => (Attempt.keeps_always (hone p)).bind fun y => ?_
        split
        · exact Attempt.keeps_pure _
        · exact hsettle _ _
      · exact hsettle _ _

/-- Nothing that the lock does needs the disk to be in any order. -/
theorem lockGround_always (l : UpdateLock) : LockGround l fun _ => True where
  prepare hmay h :=
    (keeps_ensureDirectory .refl (fun q _ _ => ⟨trivial, fun _ hn => view_makeDirectory hn q⟩)
      l.path.parent).ends hmay .refl .trans h
  create _ _ := trivial
  remove _ _ := trivial

namespace UpdateLock

variable {l : UpdateLock} {o o' : Ownership}

/-- Looking keeps everything, and what is there is seen. -/
theorem ends_look (hmay : may.Within (Calm fine p)) (hd : fine d) {x : Option Node}
    (h : (Disk.look p).Ends may d x e) : Calm fine p d e ∧ ∀ n, d.view p = .ok n →
      x = some n ∨ x = none := by
  obtain ⟨y, m, hy, hx⟩ := Routine.ends_bind.mp h
  obtain ⟨rfl, rfl⟩ := Routine.ends_done.mp hx
  obtain ⟨m, hm, hp | ⟨⟨z, rfl⟩, hf⟩⟩ := hmay (Routine.ends_op.mp hy)
  · have he : e = m := by rw [← perform_find m p, hp]
    subst he
    refine ⟨hm, fun n hn => .inl ?_⟩
    have hn' : (e.perform (.find p)).1 = .ok n := (hm hd).2 n hn
    rw [hp] at hn'
    have hy : y = .ok n := hn'
    rw [hy]
    rfl
  · exact ⟨hm.trans hf, fun n _ => .inr rfl⟩

/-- Nobody gets a lock that is there. Who gets it remembers the acquisition, with a new
generation. -/
theorem ends_tryAcquire (hl : LockGround l fine) (hmay : may.Within (Calm fine l.path))
    (hd : fine d) {r : Except OsError (Option LockGuard)}
    (h : (l.tryAcquire o).Ends may d (r, o') e) :
    fine e ∧ ((r = .ok (some ⟨o.generations + 1⟩) ∧ (∃ t, o' = o.acquired t) ∧ ¬d.Present l.path ∧
        e.Present l.path) ∨
      ((∀ g, r ≠ .ok (some g)) ∧ o' = o ∧ Calm fine l.path d e)) := by
  obtain ⟨x, m, hx, hrest⟩ := Routine.ends_seq.mp h
  have hcalm := hl.prepare hmay hx
  cases x with
  | error y =>
    obtain ⟨heq, rfl⟩ := Routine.ends_pure.mp hrest
    cases heq
    exact ⟨(hcalm hd).1, .inr ⟨by simp, rfl, hcalm⟩⟩
  | ok _ =>
    obtain ⟨y, n, hy, hend⟩ := Routine.ends_seq.mp hrest
    -- Creating the file succeeds only where none is, and all other outcomes change nothing.
    obtain ⟨m', hm', hp | ⟨⟨z, rfl⟩, hf⟩⟩ := hmay (Routine.ends_op.mp hy)
    · have hcalm' := hcalm.trans hm'
      cases y with
      | ok t =>
        obtain ⟨heq, rfl⟩ := Routine.ends_pure.mp hend
        cases heq
        have hfine := hl.create m' (hcalm' hd).1
        rw [hp] at hfine
        refine ⟨hfine, .inl ⟨rfl, ⟨t, rfl⟩, fun hpresent => ?_, present_of_create hp⟩⟩
        rw [create_of_present (hcalm'.present hd hpresent)] at hp
        cases hp
      | error z =>
        have hn : n = m' := create_of_error hp
        subst hn
        cases z with
        | alreadyExists =>
          obtain ⟨heq, rfl⟩ := Routine.ends_pure.mp hend
          cases heq
          exact ⟨(hcalm' hd).1, .inr ⟨by simp, rfl, hcalm'⟩⟩
        | _ =>
          obtain ⟨heq, rfl⟩ := Routine.ends_pure.mp hend
          cases heq
          exact ⟨(hcalm' hd).1, .inr ⟨by simp, rfl, hcalm'⟩⟩
    · obtain ⟨heq, rfl⟩ := Routine.ends_pure.mp hend
      cases heq
      have hcalm' := (hcalm.trans hm').trans hf
      exact ⟨(hcalm' hd).1, .inr ⟨by simp, rfl, hcalm'⟩⟩

/-- A lock that is not removed stays. -/
theorem ends_remove (hl : LockGround l fine) (hmay : may.Within (Calm fine l.path)) (hd : fine d)
    {r : Except OsError Bool} (h : l.remove.Ends may d r e) :
    fine e ∧ (r = .ok true ∨ Calm fine l.path d e) := by
  rcases Attempt.ends_bind.mp h with ⟨x, m, hx, hrest⟩ | ⟨_, hbad, _⟩
  · obtain ⟨y, hy, hxy⟩ := Attempt.ends_caught.mp hx
    obtain rfl : x = y := Except.ok.inj hxy
    obtain ⟨m', hm', hp | ⟨⟨z, rfl⟩, hf⟩⟩ := hmay (Routine.ends_op.mp hy)
    · cases x with
      | ok _ =>
        obtain ⟨rfl, rfl⟩ := Attempt.ends_pure.mp hrest
        have hfine := hl.remove m' (hm' hd).1
        rw [hp] at hfine
        exact ⟨hfine, .inl rfl⟩
      | error z =>
        have hm : m = m' := remove_of_error hp
        subst hm
        have he : e = m := by
          cases z with
          | notFound => exact (Attempt.ends_pure.mp hrest).2
          | _ => exact (Attempt.ends_fail.mp hrest).2
        subst he
        exact ⟨(hm' hd).1, .inr hm'⟩
    · obtain ⟨-, rfl⟩ := Attempt.ends_fail.mp hrest
      exact ⟨((hm'.trans hf) hd).1, .inr (hm'.trans hf)⟩
  · obtain ⟨_, _, hbad'⟩ := Attempt.ends_caught.mp hbad
    cases hbad'

theorem fine_of_removeUnchanged (hl : LockGround l fine) (hmay : may.Within (Calm fine l.path))
    (hd : fine d) {g : Holding} {r : Except OsError Bool}
    (h : (l.removeUnchanged g).Ends may d r e) : fine e := by
  rcases Attempt.ends_bind.mp h with ⟨x, m, hx, hrest⟩ | ⟨_, hbad, _⟩
  · obtain ⟨y, hy, hxy⟩ := Attempt.ends_always.mp hx
    have hm := ((ends_look hmay hd hy).1 hd).1
    split at hrest
    · split at hrest
      · exact (ends_remove hl hmay hm hrest).1
      · obtain ⟨-, rfl⟩ := Attempt.ends_pure.mp hrest
        exact hm
    · exact (ends_remove hl hmay hm hrest).1
  · obtain ⟨_, _, hbad'⟩ := Attempt.ends_always.mp hbad
    cases hbad'

/-- A guard gives back what is held only if it is of that generation; else nothing happens. -/
theorem ends_release (hl : LockGround l fine) (hmay : may.Within (Calm fine l.path)) (hd : fine d)
    {g : LockGuard} {r : Except OsError Bool} (h : (l.release o g).Ends may d (r, o') e) :
    fine e ∧ ((∃ k, o.holding = some k ∧ k.generation = g.generation ∧ o' = o.cleared) ∨
      (o' = o ∧ e = d)) := by
  obtain ⟨x, m, hx, hend⟩ := Routine.ends_seq.mp h
  obtain ⟨heq, rfl⟩ := Routine.ends_pure.mp hend
  cases heq
  cases hheld : o.heldBy g with
  | none =>
    rw [hheld] at hx
    obtain ⟨-, rfl⟩ := Attempt.ends_pure.mp hx
    exact ⟨hd, .inr ⟨rfl, rfl⟩⟩
  | some k =>
    rw [hheld] at hx
    refine ⟨fine_of_removeUnchanged hl hmay hd hx, .inl ⟨k, ?_⟩⟩
    have hk : o.holding.filter (fun h => h.generation == g.generation) = some k := hheld
    obtain ⟨hk, hgen⟩ := Option.filter_eq_some_iff.mp hk
    exact ⟨hk, beq_iff_eq.mp hgen, rfl⟩

/-- Whatever becomes of the lock file, nothing is held any more. -/
theorem ends_releaseIfHeld (hl : LockGround l fine) (hmay : may.Within (Calm fine l.path))
    (hd : fine d) {r : Except OsError Bool} (h : (l.releaseIfHeld o).Ends may d (r, o') e) :
    fine e ∧ o' = o.cleared := by
  obtain ⟨x, m, hx, hend⟩ := Routine.ends_seq.mp h
  obtain ⟨heq, rfl⟩ := Routine.ends_pure.mp hend
  cases heq
  refine ⟨?_, rfl⟩
  cases hheld : o.holding with
  | none =>
    rw [hheld] at hx
    obtain ⟨-, rfl⟩ := Attempt.ends_pure.mp hx
    exact hd
  | some k =>
    rw [hheld] at hx
    exact fine_of_removeUnchanged hl hmay hd hx

theorem ends_forceRelease (hl : LockGround l fine) (hmay : may.Within (Calm fine l.path))
    (hd : fine d) {r : Except OsError Bool} (h : (l.forceRelease o).Ends may d (r, o') e) :
    fine e ∧ o' = o.cleared ∧ (r = .ok true ∨ Calm fine l.path d e) := by
  obtain ⟨x, m, hx, hend⟩ := Routine.ends_seq.mp h
  obtain ⟨heq, rfl⟩ := Routine.ends_pure.mp hend
  cases heq
  obtain ⟨hfine, hstay⟩ := ends_remove hl hmay hd hx
  exact ⟨hfine, rfl, hstay⟩

end UpdateLock

end SensorCache
