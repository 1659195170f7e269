import SensorCache.Proofs.Cache.Locking
import SensorCache.Proofs.Refresh.Keeping

/-!
# A lock among neighbours

Several processes share a lock and tell their files apart by the times of their last change. What
they do to the lock may also fail. `LockTimes` names the times that matter then: those of files that
others bring, those of files that this process makes, those of files that it could not remove and
those of files that it could not see. Whatever the process does, a lock file that is there is of a
time of others, or it could not be removed, or it is the one that the process remembers
(`Knows.file`). So what is given back is gone, unless its removal failed. And a file that was there
stays until it is too old, if looking at it does not fail and it has not the time of one that the
process made (`Knows.spared`).
-/

namespace SensorCache

open Disk Time

variable {fine : Disk → Prop} {theirs : Instant → Prop} {patient : Prop} {p : Path}
  {d e f m : Disk} {t : Instant} {n : Node} {may : Conduct}

namespace Disk

/-- What others may do about the lock file at `p`: if the disk is fine it stays so, and a file that
comes there is of a time of theirs. If they are patient, no time goes back and what is there stays. -/
def Neighbourly (fine : Disk → Prop) (theirs : Instant → Prop) (patient : Prop) (p : Path)
    (d e : Disk) : Prop :=
  fine d → fine e ∧ (∀ t, e.FileOf p t → d.FileOf p t ∨ theirs t) ∧
    (patient → d.clock ≤ e.clock ∧ ∀ n, d.view p = .ok n → e.view p = .ok n)

theorem Neighbourly.refl (d : Disk) : Neighbourly fine theirs patient p d d :=
  fun h => ⟨h, fun _ ht => .inl ht, fun _ => ⟨Int.le_refl _, fun _ hn => hn⟩⟩

theorem Neighbourly.trans (h : Neighbourly fine theirs patient p d e)
    (k : Neighbourly fine theirs patient p e f) : Neighbourly fine theirs patient p d f := by
  intro hd
  obtain ⟨he, hfiles, hpatient⟩ := h hd
  obtain ⟨hf, hfiles', hpatient'⟩ := k he
  refine ⟨hf, fun t ht => ?_, fun hp => ?_⟩
  · rcases hfiles' t ht with ht | ht
    · exact hfiles t ht
    · exact .inr ht
  · obtain ⟨hde, hstays⟩ := hpatient hp
    obtain ⟨hef, hstays'⟩ := hpatient' hp
    exact ⟨Int.le_trans hde hef, fun n hn => hstays' n (hstays n hn)⟩

/-- What concerns only other files. -/
def Leaves (fine : Disk → Prop) (p : Path) (d e : Disk) : Prop :=
  fine d → fine e ∧ d.clock ≤ e.clock ∧ ∀ n, e.view p = .ok n ↔ d.view p = .ok n

theorem Leaves.refl (d : Disk) : Leaves fine p d d := fun h => ⟨h, Int.le_refl _, fun _ => .rfl⟩

theorem Leaves.neighbourly (h : Leaves fine p d e) : Neighbourly fine theirs patient p d e := by
  intro hd
  obtain ⟨he, hclock, hview⟩ := h hd
  refine ⟨he, ?_, fun _ => ⟨hclock, fun n hn => (hview n).mpr hn⟩⟩
  rintro t ⟨c, hc⟩
  exact .inl ⟨c, (hview _).mp hc⟩

/-- After a removal that the disk did, or had a reason not to do, no file is there. -/
theorem no_file_of_remove {x : Except OsError Unit} (h : d.perform (.remove p) = (x, e))
    (t : Instant) : ¬e.FileOf p t := by
  cases x with
  | ok u => exact fun ht => (remove_of_ok h).2 ht.present
  | error y =>
    obtain rfl : e = d := remove_of_error h
    rintro ⟨c, hc⟩
    obtain ⟨l, hl, hn⟩ := view_eq_ok.mp hc
    have h' : e.onPlace p e.removeFile = (.error y, e) := h
    unfold onPlace at h'
    rw [hl] at h'
    simp [removeFile, hn] at h'

end Disk

/-! ## Worlds -/

/-- Times of lock files in a world: those that others bring, those that this process makes, and those
that it could not remove or could not see when it tried to. -/
structure LockTimes where
  theirs : Instant → Prop
  ours : Instant → Prop
  stuck : Instant → Prop
  hidden : Instant → Prop

variable {times : LockTimes}

/-- A world of neighbours, in which any operation may fail. `times` tells what happens there to lock
files; as a conduct may allow no more than what happened in one history, it can be told exactly. -/
structure Neighbourhood (may : Conduct) (l : UpdateLock) (fine : Disk → Prop) (times : LockTimes)
    (patient : Prop) : Prop where
  within : may.Within (Neighbourly fine times.theirs patient l.path)
  creates {d e : Disk} {t : Instant} : may (.create l.path) d (.ok t) e → times.ours t
  removes {d e : Disk} {s : String} {t : Instant} : may (.remove l.path) d (.error (.other s)) e →
    e.FileOf l.path t → times.stuck t
  finds {d e : Disk} {s : String} {n : Node} : patient → may (.find l.path) d (.error (.other s)) e →
    e.view l.path = .ok n → times.hidden n.modified
  prepare {d e : Disk} {x : Except OsError Unit} :
    (Disk.ensureDirectory l.path.parent).Ends may d x e →
    Neighbourly fine times.theirs patient l.path d e
  create (d : Disk) : fine d → fine (d.perform (.create l.path)).2
  remove (d : Disk) : fine d → fine (d.perform (.remove l.path)).2

/-- Every lock file that is there was brought by others, or could not be removed. -/
def TheirsOrStuck (times : LockTimes) (p : Path) (d : Disk) : Prop :=
  ∀ t, d.FileOf p t → times.theirs t ∨ times.stuck t

/-- A lock file that was seen, and the age up to which checks leave it. -/
structure Sighting where
  file : Node
  limit : Span

/-- The process may take away the file that was seen: it is too old, or has the time of one that the
process made, or could not be seen at some time. -/
def Sighting.Forfeit (x : Sighting) (times : LockTimes) (d : Disk) : Prop :=
  x.limit < d.clock.since x.file.modified ∨ times.ours x.file.modified ∨
    times.hidden x.file.modified

theorem Sighting.Forfeit.later {x : Sighting} (h : x.Forfeit times d) (hle : d.clock ≤ e.clock) :
    x.Forfeit times e := h.imp_left fun hold => Instant.lt_since_of_le hold hle

/-- What a process knows of the lock file by what it remembers. It may have seen one there, which is
spared unless it is forfeit. -/
structure Knows (fine : Disk → Prop) (times : LockTimes) (p : Path) (seen : Option Sighting)
    (o : Ownership) (d : Disk) : Prop where
  stays : fine d
  file : ∀ t, d.FileOf p t →
    times.theirs t ∨ times.stuck t ∨ ∃ k, o.holding = some k ∧ k.created = t
  own : ∀ k, o.holding = some k → times.ours k.created
  spared : ∀ x ∈ seen, d.view p = .ok x.file ∨ x.Forfeit times d

namespace Knows

variable {seen : Option Sighting} {o o' : Ownership}

theorem neighbourly (h : Knows fine times p seen o d) (hseen : seen.isSome → patient)
    (hr : Neighbourly fine times.theirs patient p d e) : Knows fine times p seen o e := by
  obtain ⟨he, hfiles, hpatient⟩ := hr h.stays
  refine ⟨he, fun t ht => ?_, h.own, fun x hx => ?_⟩
  · rcases hfiles t ht with ht | ht
    · exact h.file t ht
    · exact .inl ht
  · obtain ⟨hclock, hstays⟩ := hpatient (hseen (by rw [hx]; rfl))
    rcases h.spared x hx with hview | hforfeit
    · exact .inl (hstays _ hview)
    · exact .inr (hforfeit.later hclock)

/-- Where nothing is held, the process has no lock file but one that it could not remove. -/
theorem theirsOrStuck (h : Knows fine times p seen o d) (hnone : o.holding = none) :
    TheirsOrStuck times p d := by
  intro t ht
  rcases h.file t ht with ht | ht | ⟨k, hk, -⟩
  · exact .inl ht
  · exact .inr ht
  · rw [hnone] at hk
    cases hk

/-- A process may forget what it held where it has no lock file but one that it could not remove. -/
theorem cleared (h : Knows fine times p seen o d) (hfile : TheirsOrStuck times p d) :
    Knows fine times p seen o.cleared d :=
  ⟨h.stays, fun t ht => (hfile t ht).imp_right .inl, nofun, h.spared⟩

/-- The lock file was removed, and nothing is held any more. What was seen was forfeit if it was still
there. -/
theorem removed (h : Knows fine times p seen o d) (hclock : d.clock = e.clock) (he : fine e)
    (hnone : ∀ t, ¬e.FileOf p t)
    (hforfeit : ∀ x ∈ seen, d.view p = .ok x.file → x.Forfeit times d) :
    Knows fine times p seen o.cleared e := by
  have hle : d.clock ≤ e.clock := Int.le_of_eq (congrArg Instant.nanos hclock)
  refine ⟨he, fun t ht => absurd ht (hnone t), nofun, fun x hx => .inr ?_⟩
  rcases h.spared x hx with hview | hbefore
  · exact (hforfeit x hx hview).later hle
  · exact hbefore.later hle

/-- A file of another time than that of what is held was brought by others, or could not be
removed. -/
theorem theirsOrStuck_of_ne (h : Knows fine times p seen o d) {k : Holding}
    (hheld : o.holding = some k) (hview : d.view p = .ok n) (hne : n.modified ≠ k.created) :
    TheirsOrStuck times p d := by
  rintro t ⟨c, hc⟩
  rw [hview] at hc
  cases hc
  rcases h.file t ⟨c, hview⟩ with ht | ht | ⟨j, hj, hjt⟩
  · exact .inl ht
  · exact .inr ht
  · rw [hheld] at hj
    cases hj
    exact absurd hjt.symm hne

end Knows

/-! ## The lock's operations -/

theorem eq_ok_of_toOption {x : Except OsError Node} (h : x.toOption = some n) : x = .ok n := by
  cases x with
  | ok a => exact congrArg _ (Option.some.inj h)
  | error _ => cases h

namespace Neighbourhood

variable {l : UpdateLock}

theorem ends_now (hw : Neighbourhood may l fine times patient) {now : Instant}
    (h : Disk.now.Ends may d now e) :
    Neighbourly fine times.theirs patient l.path d e := by
  obtain ⟨m, hm, hp | ⟨hfault, -⟩⟩ := hw.within (Routine.ends_op.mp h)
  · cases hp
    exact hm
  · exact hfault.elim

/-- A look sees what is there, or it could not be seen. -/
theorem ends_look (hw : Neighbourhood may l fine times patient) {x : Option Node}
    (h : (Disk.look l.path).Ends may d x e) :
    Neighbourly fine times.theirs patient l.path d e ∧ (∀ n ∈ x, e.view l.path = .ok n) ∧
      (x = none → patient → ∀ n, e.view l.path = .ok n → times.hidden n.modified) := by
  obtain ⟨y, m, hy, hend⟩ := Routine.ends_bind.mp h
  obtain ⟨rfl, rfl⟩ := Routine.ends_done.mp hend
  have hop := Routine.ends_op.mp hy
  obtain ⟨m, hm, hp | ⟨⟨s, rfl⟩, hfault⟩⟩ := hw.within hop
  · obtain rfl : e = m := by rw [← perform_find m l.path, hp]
    have hview : e.view l.path = y := congrArg Prod.fst hp
    refine ⟨hm, fun n hn => hview.trans (eq_ok_of_toOption hn), fun hnone _ n hn => ?_⟩
    rw [← hview, hn] at hnone
    cases hnone
  · exact ⟨hm.trans hfault, (fun _ hn => nomatch hn), fun _ hp n hn => hw.finds hp hop hn⟩

theorem ends_isLocked (hw : Neighbourhood may l fine times patient) {b : Bool}
    (h : l.isLocked.Ends may d b e) : Neighbourly fine times.theirs patient l.path d e := by
  obtain ⟨x, m, hx, hend⟩ := Routine.ends_seq.mp h
  obtain ⟨-, rfl⟩ := Routine.ends_pure.mp hend
  exact (hw.ends_look hx).1

/-- After an attempt to remove it there is no lock file, or it could not be removed. Before that
others may have their way. -/
theorem ends_remove (hw : Neighbourhood may l fine times patient) {r : Except OsError Bool}
    (h : l.remove.Ends may d r e) :
    (Neighbourly fine times.theirs patient l.path d e ∧ ∀ t, e.FileOf l.path t → times.stuck t) ∨
      ∃ m, Neighbourly fine times.theirs patient l.path d m ∧ m.clock = e.clock ∧
        (fine m → fine e) ∧ ∀ t, ¬e.FileOf l.path t := by
  rcases Attempt.ends_bind.mp h with ⟨x, m, hx, hrest⟩ | ⟨_, hbad, _⟩
  · obtain ⟨y, hy, hxy⟩ := Attempt.ends_caught.mp hx
    obtain rfl : x = y := Except.ok.inj hxy
    obtain rfl : e = m := by
      split at hrest
      · exact (Attempt.ends_pure.mp hrest).2
      · exact (Attempt.ends_pure.mp hrest).2
      · exact (Attempt.ends_fail.mp hrest).2
    have hop := Routine.ends_op.mp hy
    obtain ⟨m, hm, hp | ⟨⟨s, rfl⟩, hfault⟩⟩ := hw.within hop
    · have hclock := clock_perform m (.remove l.path)
      have hfine := hw.remove m
      rw [hp] at hclock hfine
      exact .inr ⟨m, hm, hclock.symm, hfine, no_file_of_remove hp⟩
    · exact .inl ⟨hm.trans hfault, fun t ht => hw.removes hop ht⟩
  · obtain ⟨_, _, hbad'⟩ := Attempt.ends_caught.mp hbad
    cases hbad'

end Neighbourhood

/-- A guard gives back what is held under it, and what is held after that is another's. -/
theorem UpdateLock.leads_release (l : UpdateLock) (o : Ownership) (g : LockGuard) (d : Disk) :
    (l.release o g).Leads may d fun x _ =>
      x.2 = (if (o.heldBy g).isSome then o.cleared else o) ∧
        ∀ k, x.2.holding = some k → k.generation ≠ g.generation := by
  refine (Routine.leads_any (l.giveBack (o.heldBy g)).outcome d).bind fun _ _ _ =>
    Routine.leads_pure ⟨rfl, fun k hk hg => ?_⟩
  have hheld : (if (o.heldBy g).isSome then o.cleared else o).holding = some k := hk
  split at hheld
  · cases hheld
  · next hnone =>
    refine hnone (Option.isSome_iff_exists.mpr ⟨k, ?_⟩)
    exact Option.filter_eq_some_iff.mpr ⟨hheld, beq_iff_eq.mpr hg⟩

namespace Knows

variable {l : UpdateLock} {seen : Option Sighting} {o o' : Ownership}

/-- Whoever removes the lock file forgets what is held, whether the file went or not. One that was
seen may be removed only if it is forfeit. -/
theorem ends_remove (hw : Neighbourhood may l fine times patient)
    (hk : Knows fine times l.path seen o d) (hseen : seen.isSome → patient)
    (hforfeit : ∀ x ∈ seen, d.view l.path = .ok x.file → x.Forfeit times d)
    {r : Except OsError Bool} (h : l.remove.Ends may d r e) :
    Knows fine times l.path seen o.cleared e := by
  rcases hw.ends_remove h with ⟨hstuck, hfiles⟩ | ⟨m, hm, hclock, hfine, hnone⟩
  · exact (hk.neighbourly hseen hstuck).cleared fun t ht => .inr (hfiles t ht)
  · have hkm := hk.neighbourly hseen hm
    refine hkm.removed hclock (hfine hkm.stays) hnone fun x hx hview => ?_
    have hle := ((hm hk.stays).2.2 (hseen (by rw [hx]; rfl))).1
    rcases hk.spared x hx with hd | hd
    · exact (hforfeit x hx hd).later hle
    · exact hd.later hle

/-- What is held is given back. A file that was seen is removed only if it has the time of what is
held, or could not be seen. -/
theorem ends_giveBack (hw : Neighbourhood may l fine times patient)
    (hk : Knows fine times l.path seen o d) (hseen : seen.isSome → patient)
    {r : Except OsError Bool} (h : (l.giveBack o.holding).Ends may d r e) :
    Knows fine times l.path seen o.cleared e := by
  cases hheld : o.holding with
  | none =>
    rw [hheld] at h
    obtain ⟨-, rfl⟩ := Attempt.ends_pure.mp h
    exact hk.cleared (hk.theirsOrStuck hheld)
  | some k =>
    rw [hheld] at h
    rcases Attempt.ends_bind.mp h with ⟨x, m, hx, hrest⟩ | ⟨_, hbad, _⟩
    · obtain ⟨y, hy, hxy⟩ := Attempt.ends_always.mp hx
      obtain rfl : x = y := Except.ok.inj hxy
      obtain ⟨hlook, hsaw, hmissed⟩ := hw.ends_look hy
      have hkm := hk.neighbourly hseen hlook
      split at hrest
      · next n =>
        have hview := hsaw n rfl
        split at hrest
        · next heq =>
          refine hkm.ends_remove hw hseen (fun a _ hva => .inr (.inl ?_)) hrest
          rw [hview] at hva
          cases hva
          rw [beq_iff_eq.mp heq]
          exact hkm.own k hheld
        · next hne =>
          obtain ⟨-, rfl⟩ := Attempt.ends_pure.mp hrest
          have hother := hkm.theirsOrStuck_of_ne hheld hview fun heq => hne (beq_iff_eq.mpr heq)
          exact hkm.cleared hother
      · refine hkm.ends_remove hw hseen (fun a ha hva => .inr (.inr ?_)) hrest
        exact hmissed rfl (hseen (by rw [ha]; rfl)) _ hva
    · obtain ⟨_, _, hbad'⟩ := Attempt.ends_always.mp hbad
      cases hbad'

theorem ends_releaseIfHeld (hw : Neighbourhood may l fine times patient)
    (hk : Knows fine times l.path seen o d) (hseen : seen.isSome → patient)
    {r : Except OsError Bool} (h : (l.releaseIfHeld o).Ends may d (r, o') e) :
    Knows fine times l.path seen o' e := by
  obtain ⟨x, m, hback, hend⟩ := Routine.ends_seq.mp h
  obtain ⟨heq, rfl⟩ := Routine.ends_pure.mp hend
  cases heq
  exact hk.ends_giveBack hw hseen hback

/-- A guard gives back what is held if that is its own, and else nothing. -/
theorem ends_release (hw : Neighbourhood may l fine times patient)
    (hk : Knows fine times l.path seen o d) (hseen : seen.isSome → patient) {g : LockGuard}
    {r : Except OsError Bool} (h : (l.release o g).Ends may d (r, o') e) :
    Knows fine times l.path seen o' e := by
  obtain ⟨x, m, hback, hend⟩ := Routine.ends_seq.mp h
  obtain ⟨heq, rfl⟩ := Routine.ends_pure.mp hend
  cases heq
  cases hheld : o.heldBy g with
  | none =>
    rw [hheld] at hback
    obtain ⟨-, rfl⟩ := Attempt.ends_pure.mp hback
    exact hk
  | some k =>
    obtain ⟨hholding, -⟩ := Option.filter_eq_some_iff.mp hheld
    rw [hheld, ← hholding] at hback
    exact hk.ends_giveBack hw hseen hback

/-- Who gets the lock remembers the file that was made for it. -/
theorem ends_tryAcquire (hw : Neighbourhood may l fine times patient)
    (hk : Knows fine times l.path seen o d) (hseen : seen.isSome → patient)
    {r : Except OsError (Option LockGuard)} (h : (l.tryAcquire o).Ends may d (r, o') e) :
    Knows fine times l.path seen o' e ∧ ∀ g, r = .ok (some g) →
      ∃ t, o'.holding = some ⟨g.generation, t⟩ ∧ e.FileOf l.path t := by
  obtain ⟨x, m, hx, hrest⟩ := Routine.ends_seq.mp h
  have hkm := hk.neighbourly hseen (hw.prepare hx)
  cases x with
  | error y =>
    obtain ⟨heq, rfl⟩ := Routine.ends_pure.mp hrest
    cases heq
    exact ⟨hkm, fun _ hg => nomatch hg⟩
  | ok _ =>
    obtain ⟨y, n, hy, hend⟩ := Routine.ends_seq.mp hrest
    have hop := Routine.ends_op.mp hy
    obtain ⟨m', hm', hcreate⟩ := hw.within hop
    have hkm' := hkm.neighbourly hseen hm'
    cases y with
    | ok t =>
      obtain ⟨heq, rfl⟩ := Routine.ends_pure.mp hend
      cases heq
      rcases hcreate with hp | ⟨⟨z, hz⟩, -⟩
      · have hfile : e.FileOf l.path t := ⟨_, file_of_create hp⟩
        have hclock := clock_perform m' (.create l.path)
        have hfine := hw.create m' hkm'.stays
        rw [hp] at hclock hfine
        refine ⟨⟨hfine, fun u hu => .inr (.inr ⟨_, rfl, hfile.unique hu⟩), ?_, fun a ha => .inr ?_⟩,
          fun g hg => ?_⟩
        · rintro k ⟨⟩
          exact hw.creates hop
        · -- A file that is there is not created, so the one that was seen must have gone.
          rcases hkm'.spared a ha with hview | hforfeit
          · rw [create_of_present ⟨_, hview⟩] at hp
            cases hp
          · exact hforfeit.later (Int.le_of_eq (congrArg Instant.nanos hclock.symm))
        · cases hg
          exact ⟨t, rfl, hfile⟩
      · cases hz
    | error z =>
      have hkn : Knows fine times l.path seen o n := by
        rcases hcreate with hp | ⟨-, hfault⟩
        · obtain rfl := create_of_error hp
          exact hkm'
        · exact hkm'.neighbourly hseen hfault
      split at hend
      · next heq => cases heq
      · obtain ⟨heq, rfl⟩ := Routine.ends_pure.mp hend
        cases heq
        exact ⟨hkn, fun _ hg => nomatch hg⟩
      · obtain ⟨heq, rfl⟩ := Routine.ends_pure.mp hend
        cases heq
        exact ⟨hkn, fun _ hg => nomatch hg⟩

theorem ends_forceRelease (hw : Neighbourhood may l fine times patient)
    (hk : Knows fine times l.path seen o d) (hseen : seen.isSome → patient)
    (hforfeit : ∀ x ∈ seen, d.view l.path = .ok x.file → x.Forfeit times d)
    {r : Except OsError Bool} (h : (l.forceRelease o).Ends may d (r, o') e) :
    Knows fine times l.path seen o' e := by
  obtain ⟨x, m, hremove, hend⟩ := Routine.ends_seq.mp h
  obtain ⟨heq, rfl⟩ := Routine.ends_pure.mp hend
  cases heq
  exact hk.ends_remove hw hseen hforfeit hremove

/-- A check spares what is not too old. A time to come that it is told to go by would make files look
older than they are. -/
theorem ends_checkAt (hw : Neighbourhood may l fine times patient) {c : Monitor}
    (hage : ∀ x ∈ seen, c.settings.maxLockAge = x.limit)
    (hk : Knows fine times l.path seen o d) (hseen : seen.isSome → patient)
    {now : Instant} (hnow : patient → now ≤ d.clock) {job : Option JobHandle} {r : MonitorReport}
    (h : (c.checkAt l o job now).Ends may d (r, o') e) : Knows fine times l.path seen o' e := by
  obtain ⟨locked, m₁, hlocked, hrest⟩ := Routine.ends_seq.mp h
  have h₁ := hw.ends_isLocked hlocked
  split at hrest
  · obtain ⟨clock, m₂, hclock, hrest⟩ := Routine.ends_seq.mp hrest
    have h₂ := h₁.trans (hw.ends_now hclock)
    obtain ⟨x, m₃, hx, hrest⟩ := Routine.ends_seq.mp hrest
    obtain ⟨y, m₄, hlook, hend⟩ := Routine.ends_seq.mp hx
    obtain ⟨rfl, rfl⟩ := Routine.ends_pure.mp hend
    obtain ⟨hlooked, hsaw, -⟩ := hw.ends_look hlook
    have h₃ := h₂.trans hlooked
    have hk₃ := hk.neighbourly hseen h₃
    have hkept : ∀ {report : MonitorReport}, (pure (report, o) : Routine _).Ends may m₃ (r, o') e →
        Knows fine times l.path seen o' e := by
      intro report hend
      obtain ⟨heq, rfl⟩ := Routine.ends_pure.mp hend
      cases heq
      exact hk₃
    split at hrest
    · next age hfound =>
      split at hrest
      · next hold =>
        obtain ⟨⟨z, o₁⟩, m₅, hforce, hend⟩ := Routine.ends_seq.mp hrest
        have hforced := hk₃.ends_forceRelease hw hseen (fun a ha hview => .inl ?_) hforce
        · have hsame : o' = o₁ ∧ e = m₅ := by
            cases z with
            | ok _ | error _ =>
              obtain ⟨heq, rfl⟩ := Routine.ends_pure.mp hend
              cases heq
              exact ⟨rfl, rfl⟩
          rw [hsame.1, hsame.2]
          exact hforced
        · -- The age is that of the file by a time that has come.
          have hpatient : patient := hseen (by rw [ha]; rfl)
          obtain ⟨n, hn, rfl⟩ := Option.map_eq_some_iff.mp hfound
          rw [hsaw n hn] at hview
          cases hview
          rw [hage a ha] at hold
          have hlater := Int.le_trans (hnow hpatient) ((h₃ hk.stays).2.2 hpatient).1
          exact Instant.lt_since_of_le hold hlater
      · exact hkept hrest
    · exact hkept hrest
  · obtain ⟨heq, rfl⟩ := Routine.ends_pure.mp hrest
    cases heq
    exact hk.neighbourly hseen h₁

end Knows

/-! ## On one's own -/

/-- Nobody else is about, and it is a time at which this process may make files. -/
def Disk.Conduct.alone (ours : Instant → Prop) : Conduct :=
  fun o d x e => d.perform o = (x, e) ∧ ours d.clock

/-- Nothing that is tried fails. -/
def LockTimes.faultless (theirs ours : Instant → Prop) : LockTimes where
  theirs := theirs
  ours := ours
  stuck _ := False
  hidden _ := False

/-- The lock is in the current directory, for which no directory has to be made. -/
theorem neighbourhood_alone {l : UpdateLock} {ours : Instant → Prop}
    (hl : l.path.parent.text.isEmpty = true) (patient : Prop) :
    Neighbourhood (.alone ours) l (fun _ => True) (.faultless theirs ours) patient where
  within h := ⟨_, .refl _, .inl h.1⟩
  creates h := by
    rw [clock_of_create h.1]
    exact h.2
  removes h ht := no_file_of_remove h.1 _ ht
  finds {d e s n} _ h hn := by
    have hsame := perform_find d l.path
    rw [h.1] at hsame
    have hview : d.view l.path = .error (.other s) := congrArg Prod.fst h.1
    rw [show e = d from hsame, hview] at hn
    cases hn
  prepare h := by
    unfold ensureDirectory makeDirectories at h
    rw [if_pos hl] at h
    obtain ⟨-, rfl⟩ := Attempt.ends_pure.mp h
    exact .refl _
  create _ _ := trivial
  remove _ _ := trivial

end SensorCache
