import SensorCache.Proofs.Cache.Locking
import SensorCache.Refresh.Keeper

/-!
# What a keeper does to the lock

Apart from taking the lock and giving it back, a keeper only looks at it. It removes one that is
there only by a check, and that check counts it and found it too old (`Keeper.Minds`).
-/

namespace SensorCache

open Disk Time

variable {fine : Disk → Prop} {l : UpdateLock} {d e : Disk} {may : Conduct}

namespace UpdateLock

theorem ends_isLocked (hmay : may.Within (Calm fine l.path)) (hd : fine d) {b : Bool}
    (h : l.isLocked.Ends may d b e) : Calm fine l.path d e := by
  obtain ⟨x, m, hx, hend⟩ := Routine.ends_seq.mp h
  obtain ⟨-, rfl⟩ := Routine.ends_pure.mp hend
  exact (ends_look hmay hd hx).1

/-- The age of a lock that is there is told from its time. -/
theorem ends_ageAt (hmay : may.Within (Calm fine l.path)) (hd : fine d) {now : Instant}
    {x : Option Span} (h : (l.ageAt now).Ends may d x e) :
    Calm fine l.path d e ∧ ∀ n, d.view l.path = .ok n → ∀ age ∈ x, age = now.since n.modified := by
  obtain ⟨y, m, hy, hend⟩ := Routine.ends_seq.mp h
  obtain ⟨rfl, rfl⟩ := Routine.ends_pure.mp hend
  obtain ⟨hcalm, hseen⟩ := ends_look hmay hd hy
  refine ⟨hcalm, fun n hn age hage => ?_⟩
  rcases hseen n hn with rfl | rfl
  · exact (Option.some.inj hage).symm
  · cases hage

end UpdateLock

/-- The time is the clock's, at some time before which the lock was left alone. -/
theorem Disk.ends_now (hmay : may.Within (Calm fine l.path)) {now : Instant}
    (h : Disk.now.Ends may d now e) :
    Calm fine l.path d e ∧ ∃ m, Calm fine l.path d m ∧ now = m.clock := by
  obtain ⟨m, hm, hp | ⟨hfault, -⟩⟩ := hmay (Routine.ends_op.mp h)
  · cases hp
    exact ⟨hm, _, hm, rfl⟩
  · exact hfault.elim

/-- If a lock is there, it was too old at `now`. -/
def Monitor.Expired (m : Monitor) (l : UpdateLock) (d : Disk) (now : Instant) : Prop :=
  ∀ n, d.view l.path = .ok n → m.settings.maxLockAge < now.since n.modified

/-- A check that removes no lock leaves it alone; what it removes was too old. -/
theorem Monitor.ends_checkAt (hl : LockGround l fine) (hmay : may.Within (Calm fine l.path))
    (hd : fine d) {m : Monitor} {o o' : Ownership} {job : Option JobHandle} {now : Instant}
    {r : MonitorReport} (h : (m.checkAt l o job now).Ends may d (r, o') e) :
    fine e ∧ (o' = o ∨ o' = o.cleared) ∧
      ((r.lockRemoved = true ∧ m.Expired l d now) ∨
        (r.lockRemoved = false ∧ Calm fine l.path d e)) := by
  obtain ⟨locked, m₁, hlocked, hrest⟩ := Routine.ends_seq.mp h
  have h₁ := UpdateLock.ends_isLocked hmay hd hlocked
  split at hrest
  · obtain ⟨clock, m₂, hclock, hrest⟩ := Routine.ends_seq.mp hrest
    have h₂ := h₁.trans (Disk.ends_now hmay hclock).1
    obtain ⟨x, m₃, hage, hrest⟩ := Routine.ends_seq.mp hrest
    obtain ⟨hlook, hseen⟩ := UpdateLock.ends_ageAt hmay (h₂ hd).1 hage
    have h₃ := h₂.trans hlook
    split at hrest
    -- Only an age that was seen, of the lock that is there, lets it be removed.
    · next age =>
      split at hrest
      · next hold =>
        have hexpired : m.Expired l d now := fun n hn => by
          rw [← hseen n ((h₂ hd).2 n hn) age rfl]
          exact hold
        obtain ⟨⟨y, o₁⟩, m₄, hforce, hend⟩ := Routine.ends_seq.mp hrest
        obtain ⟨hfine, rfl, hstay⟩ := UpdateLock.ends_forceRelease hl hmay (h₃ hd).1 hforce
        cases y with
        | ok removed =>
          obtain ⟨heq, rfl⟩ := Routine.ends_pure.mp hend
          cases heq
          refine ⟨hfine, .inr rfl, ?_⟩
          rcases hstay with hok | hstay
          · cases hok
            exact .inl ⟨rfl, hexpired⟩
          · cases removed with
            | true => exact .inl ⟨rfl, hexpired⟩
            | false => exact .inr ⟨rfl, h₃.trans hstay⟩
        | error y =>
          obtain ⟨heq, rfl⟩ := Routine.ends_pure.mp hend
          cases heq
          refine ⟨hfine, .inr rfl, .inr ⟨rfl, ?_⟩⟩
          rcases hstay with hok | hstay
          · cases hok
          · exact h₃.trans hstay
      · obtain ⟨heq, rfl⟩ := Routine.ends_pure.mp hrest
        cases heq
        exact ⟨(h₃ hd).1, .inl rfl, .inr ⟨rfl, h₃⟩⟩
    · obtain ⟨heq, rfl⟩ := Routine.ends_pure.mp hrest
      cases heq
      exact ⟨(h₃ hd).1, .inl rfl, .inr ⟨rfl, h₃⟩⟩
  · obtain ⟨heq, rfl⟩ := Routine.ends_pure.mp hrest
    cases heq
    exact ⟨(h₁ hd).1, .inl rfl, .inr ⟨rfl, h₁⟩⟩

/-! ## Keepers -/

namespace Keeper

variable {k k' k'' : Keeper} {now : Instant}

/-- The keeper has the same lock, with the same settings of its monitor. -/
structure SameLock (k k' : Keeper) : Prop where
  lock : k'.lock = k.lock
  settings : k'.monitor.settings = k.monitor.settings

theorem SameLock.refl (k : Keeper) : SameLock k k := ⟨rfl, rfl⟩

theorem SameLock.trans (h : SameLock k k') (h' : SameLock k' k'') : SameLock k k'' :=
  ⟨h'.lock.trans h.lock, h'.settings.trans h.settings⟩

/-- The keeper has looked at the lock, and may have removed it if it was too old at `now`. -/
structure Minds (fine : Disk → Prop) (now : Instant) (k : Keeper) (d : Disk) (k' : Keeper)
    (e : Disk) : Prop where
  same : SameLock k k'
  stays : fine e
  ownership : k'.ownership = k.ownership ∨ k'.ownership = k.ownership.cleared
  removed : (k'.monitor.recovered = k.monitor.recovered + 1 ∧ k.monitor.Expired k.lock d now) ∨
    (k'.monitor.recovered = k.monitor.recovered ∧ Calm fine k.lock.path d e)

/-- The keeper differs only in what does not concern the lock. -/
structure Alike (k k' : Keeper) : Prop where
  same : SameLock k k'
  ownership : k'.ownership = k.ownership
  recovered : k'.monitor.recovered = k.monitor.recovered

theorem Alike.refl (k : Keeper) : Alike k k := ⟨.refl k, rfl, rfl⟩

theorem Alike.trans (h : Alike k k') (h' : Alike k' k'') : Alike k k'' :=
  ⟨h.same.trans h'.same, h'.ownership.trans h.ownership, h'.recovered.trans h.recovered⟩

theorem Minds.alike (h : Minds fine now k d k' e) (h' : Alike k' k'') : Minds fine now k d k'' e :=
  ⟨h.same.trans h'.same, h.stays, h'.ownership ▸ h.ownership, h'.recovered ▸ h.removed⟩

/-- Before it the lock was left alone. -/
theorem Minds.before {m : Disk} (hd : fine d) (hc : Calm fine k.lock.path d m)
    (h : Minds fine now k m k' e) : Minds fine now k d k' e := by
  refine ⟨h.same, h.stays, h.ownership, h.removed.imp ?_ ?_⟩
  · exact fun h => ⟨h.1, fun n hn => h.2 n ((hc hd).2 n hn)⟩
  · exact fun h => ⟨h.1, hc.trans h.2⟩

/-- After it the lock was left alone. -/
theorem Minds.after {f : Disk} (h : Minds fine now k d k' e) (hc : Calm fine k.lock.path e f) :
    Minds fine now k d k' f :=
  ⟨h.same, (hc h.stays).1, h.ownership, h.removed.imp_right fun h => ⟨h.1, h.2.trans hc⟩⟩

theorem alike_updateJob (k : Keeper) (id : Nat) (f : JobHandle → JobHandle) :
    Alike k (k.updateJob id f) := ⟨⟨rfl, rfl⟩, rfl, rfl⟩

theorem alike_setJob (k : Keeper) (j : JobHandle) : Alike k (k.setJob j) := ⟨⟨rfl, rfl⟩, rfl, rfl⟩

theorem cancelPending_eq (m : Monitor) :
    m.cancelPending.settings = m.settings ∧ m.cancelPending.recovered = m.recovered := by
  unfold Monitor.cancelPending
  split <;> exact ⟨rfl, rfl⟩

theorem alike_reschedule (k : Keeper) :
    Alike k { k with monitor := k.monitor.reschedule k.elapsed } :=
  have h := cancelPending_eq k.monitor
  ⟨⟨rfl, h.1⟩, rfl, h.2⟩

theorem alike_arm (k : Keeper) (job : Nat) : Alike k (k.arm job) :=
  have h := cancelPending_eq (k.monitor.watch job)
  ⟨⟨rfl, h.1⟩, rfl, h.2⟩

theorem alike_ensureArmed (k : Keeper) : Alike k k.ensureArmed := by
  unfold ensureArmed Monitor.ensureArmed
  split <;> exact ⟨⟨rfl, rfl⟩, rfl, rfl⟩

theorem watched_record (m : Monitor) (r : MonitorReport) : (m.record r).watched = m.watched := by
  unfold Monitor.record
  split <;> rfl

theorem settings_record (m : Monitor) (r : MonitorReport) : (m.record r).settings = m.settings := by
  unfold Monitor.record
  split <;> rfl

theorem alike_reported (k : Keeper) (r : MonitorReport) (o : Ownership) :
    Alike { k with ownership := o, monitor := k.monitor.record r } (k.reported r o) := by
  unfold reported
  dsimp only
  split
  · split
    · exact alike_updateJob _ _ _
    · exact .refl _
  · exact .refl _

theorem sameLock_reported (k : Keeper) (r : MonitorReport) (o : Ownership) :
    SameLock k (k.reported r o) :=
  have h := (alike_reported k r o).same
  ⟨h.lock, h.settings.trans (settings_record k.monitor r)⟩

theorem ends_checkAt (hl : LockGround k.lock fine) (hmay : may.Within (Calm fine k.lock.path))
    (hd : fine d) {r : MonitorReport} (h : (k.checkAt now).Ends may d (r, k') e) :
    Minds fine now k d k' e ∧ (r.lockRemoved = true ∨ Calm fine k.lock.path d e) := by
  obtain ⟨⟨r', o⟩, m, hx, hend⟩ := Routine.ends_seq.mp h
  obtain ⟨heq, rfl⟩ := Routine.ends_pure.mp hend
  cases heq
  obtain ⟨hfine, ho, hr⟩ := Monitor.ends_checkAt hl hmay hd hx
  have hminds : Minds fine now k d { k with ownership := o, monitor := k.monitor.record r } e := by
    refine ⟨⟨rfl, settings_record _ _⟩, hfine, ho, ?_⟩
    rcases hr with ⟨hr, hexpired⟩ | ⟨hr, hcalm⟩
    · exact .inl ⟨by simp [Monitor.record, hr], hexpired⟩
    · exact .inr ⟨by simp [Monitor.record, hr], hcalm⟩
  exact ⟨hminds.alike (alike_reported k r o), hr.imp (fun h => h.1) fun h => h.2⟩

/-- The clock of a disk that came of `d` while the lock was left alone. -/
def ClockAfter (fine : Disk → Prop) (p : Path) (d : Disk) (now : Instant) : Prop :=
  ∃ m, Calm fine p d m ∧ now = m.clock

theorem ClockAfter.before {p : Path} {m : Disk} (hc : Calm fine p d m)
    (h : ClockAfter fine p m now) : ClockAfter fine p d now :=
  have ⟨f, hf, hnow⟩ := h
  ⟨f, hc.trans hf, hnow⟩

theorem ends_check (hl : LockGround k.lock fine) (hmay : may.Within (Calm fine k.lock.path))
    (hd : fine d) {r : MonitorReport} (h : k.check.Ends may d (r, k') e) :
    ∃ now, ClockAfter fine k.lock.path d now ∧ Minds fine now k d k' e ∧
      (r.lockRemoved = true ∨ Calm fine k.lock.path d e) := by
  obtain ⟨now, m, hnow, hrest⟩ := Routine.ends_seq.mp h
  obtain ⟨hcalm, hclock⟩ := Disk.ends_now hmay hnow
  obtain ⟨hminds, hr⟩ := ends_checkAt hl hmay (hcalm hd).1 hrest
  exact ⟨now, hclock, hminds.before hd hcalm, hr.imp_right hcalm.trans⟩

theorem Alike.minds {k₀ : Keeper} (h : Alike k k₀) (hm : Minds fine now k₀ d k' e) :
    Minds fine now k d k' e := by
  refine ⟨h.same.trans hm.same, hm.stays, h.ownership ▸ hm.ownership, ?_⟩
  have hr := hm.removed
  unfold Monitor.Expired at hr ⊢
  rwa [h.recovered, h.same.lock, h.same.settings] at hr

theorem minds_refl (hd : fine d) : Minds fine now k d k d :=
  ⟨.refl k, hd, .inl rfl, .inr ⟨rfl, .refl d⟩⟩

theorem clockAfter_clock (p : Path) (d : Disk) : ClockAfter fine p d d.clock := ⟨d, .refl d, rfl⟩

/-- The keeper got the lock, which was not there, by a new acquisition. -/
structure Gets (fine : Disk → Prop) (k : Keeper) (d : Disk) (g : LockGuard) (k' : Keeper)
    (e : Disk) : Prop where
  same : SameLock k k'
  stays : fine e
  recovered : k'.monitor.recovered = k.monitor.recovered
  guard : g.generation = k.ownership.generations + 1
  ownership : ∃ t, k'.ownership = k.ownership.acquired t
  absent : ¬d.Present k.lock.path
  present : e.Present k.lock.path

theorem ends_tryAcquire (hl : LockGround k.lock fine) (hmay : may.Within (Calm fine k.lock.path))
    (hd : fine d) {r : Except OsError (Option LockGuard)}
    (h : k.tryAcquire.Ends may d (r, k') e) :
    (∃ g, r = .ok (some g) ∧ Gets fine k d g k' e) ∨
      ((∀ g, r ≠ .ok (some g)) ∧ Alike k k' ∧ Calm fine k.lock.path d e) := by
  obtain ⟨⟨r', o⟩, m, hx, hend⟩ := Routine.ends_seq.mp h
  obtain ⟨heq, rfl⟩ := Routine.ends_pure.mp hend
  cases heq
  obtain ⟨hfine, ⟨rfl, ⟨t, rfl⟩, habsent, hpresent⟩ | ⟨hr, rfl, hcalm⟩⟩ :=
    UpdateLock.ends_tryAcquire hl hmay hd hx
  · exact .inl ⟨_, rfl, ⟨rfl, rfl⟩, hfine, rfl, rfl, ⟨t, rfl⟩, habsent, hpresent⟩
  · exact .inr ⟨hr, ⟨⟨rfl, rfl⟩, rfl, rfl⟩, hcalm⟩

/-- A lock in the way is looked at before the keeper may get it. -/
theorem ends_acquire (hl : LockGround k.lock fine) (hmay : may.Within (Calm fine k.lock.path))
    (hd : fine d) {r : Except OsError (Option LockGuard)} (h : k.acquire.Ends may d (r, k') e) :
    ∃ now, ClockAfter fine k.lock.path d now ∧
      ((∃ k₁ m g, Minds fine now k d k₁ m ∧ r = .ok (some g) ∧ Gets fine k₁ m g k' e) ∨
        ((∀ g, r ≠ .ok (some g)) ∧ Minds fine now k d k' e)) := by
  obtain ⟨⟨x, k₁⟩, m, hx, hrest⟩ := Routine.ends_seq.mp h
  -- Unless a lock is in the way the first try decides.
  have hfirst : ∀ {x}, (pure (x, k₁) : Routine _).Ends may m (r, k') e →
      k.tryAcquire.Ends may d (x, k₁) m → ∃ now, ClockAfter fine k.lock.path d now ∧
        ((∃ k₁ m g, Minds fine now k d k₁ m ∧ r = .ok (some g) ∧ Gets fine k₁ m g k' e) ∨
          ((∀ g, r ≠ .ok (some g)) ∧ Minds fine now k d k' e)) := by
    intro x hend hx
    obtain ⟨heq, rfl⟩ := Routine.ends_pure.mp hend
    cases heq
    refine ⟨_, clockAfter_clock _ d, ?_⟩
    obtain ⟨g, rfl, hgets⟩ | ⟨hr, halike, hcalm⟩ := ends_tryAcquire hl hmay hd hx
    · exact .inl ⟨k, d, g, minds_refl hd, rfl, hgets⟩
    · exact .inr ⟨hr, ((minds_refl hd).after hcalm).alike halike⟩
  rcases x with y | _ | g
  · exact hfirst hrest hx
  · obtain ⟨g, hg, -⟩ | ⟨-, halike, hcalm⟩ := ends_tryAcquire hl hmay hd hx
    · cases hg
    have hl₁ : LockGround k₁.lock fine := halike.same.lock ▸ hl
    have hmay₁ : may.Within (Calm fine k₁.lock.path) := halike.same.lock ▸ hmay
    have hcalm₁ : Calm fine k₁.lock.path d m := halike.same.lock ▸ hcalm
    obtain ⟨⟨report, k₂⟩, n, hcheck, hrest⟩ := Routine.ends_seq.mp hrest
    obtain ⟨now, hclock, hminds, -⟩ := ends_check hl₁ hmay₁ (hcalm hd).1 hcheck
    have hminds' := halike.minds (hminds.before hd hcalm₁)
    refine ⟨now, halike.same.lock ▸ hclock.before hcalm₁, ?_⟩
    dsimp only at hrest
    split at hrest
    · have hl₂ : LockGround k₂.lock fine := hminds'.same.lock ▸ hl
      have hmay₂ : may.Within (Calm fine k₂.lock.path) := hminds'.same.lock ▸ hmay
      obtain ⟨g, rfl, hgets⟩ | ⟨hr, halike', hcalm'⟩ := ends_tryAcquire hl₂ hmay₂ hminds.stays hrest
      · exact .inl ⟨k₂, n, g, hminds', rfl, hgets⟩
      · have hcalm'' : Calm fine k.lock.path n e := hminds'.same.lock ▸ hcalm'
        exact .inr ⟨hr, (hminds'.after hcalm'').alike halike'⟩
    · obtain ⟨heq, rfl⟩ := Routine.ends_pure.mp hrest
      cases heq
      exact .inr ⟨by simp, hminds'.alike (alike_ensureArmed k₂)⟩
  · exact hfirst hrest hx

theorem ends_recover (hl : LockGround k.lock fine) (hmay : may.Within (Calm fine k.lock.path))
    (hd : fine d) {b : Bool} (h : k.recover.Ends may d (b, k') e) :
    ∃ now, ClockAfter fine k.lock.path d now ∧ Minds fine now k d k' e := by
  obtain ⟨⟨report, k₁⟩, m, hcheck, hrest⟩ := Routine.ends_seq.mp h
  obtain ⟨now, hclock, hminds, -⟩ := ends_check hl hmay hd hcheck
  refine ⟨now, hclock, ?_⟩
  dsimp only at hrest
  split at hrest
  · obtain ⟨heq, rfl⟩ := Routine.ends_pure.mp hrest
    cases heq
    exact hminds
  · obtain ⟨locked, n, hlocked, hend⟩ := Routine.ends_seq.mp hrest
    have hmay₁ : may.Within (Calm fine k₁.lock.path) := hminds.same.lock ▸ hmay
    have hcalm := UpdateLock.ends_isLocked hmay₁ hminds.stays hlocked
    have hafter := hminds.after (hminds.same.lock ▸ hcalm : Calm fine k.lock.path m n)
    split at hend
    · obtain ⟨heq, rfl⟩ := Routine.ends_pure.mp hend
      cases heq
      exact hafter.alike (alike_ensureArmed k₁)
    · obtain ⟨heq, rfl⟩ := Routine.ends_pure.mp hend
      cases heq
      exact hafter

theorem ends_fire (hl : LockGround k.lock fine) (hmay : may.Within (Calm fine k.lock.path))
    (hd : fine d) {check : Nat} (h : (k.fire check).Ends may d k' e) :
    ∃ now, ClockAfter fine k.lock.path d now ∧ Minds fine now k d k' e := by
  unfold fire at h
  split at h
  · obtain ⟨rfl, rfl⟩ := Routine.ends_pure.mp h
    exact ⟨_, clockAfter_clock _ _, minds_refl hd⟩
  · obtain ⟨⟨report, k₁⟩, m, hcheck, hrest⟩ := Routine.ends_seq.mp h
    have hbegin : Alike k { k with monitor := k.monitor.begin check } := ⟨⟨rfl, rfl⟩, rfl, rfl⟩
    obtain ⟨now, hclock, hminds, -⟩ :=
      ends_check (k := { k with monitor := k.monitor.begin check }) hl hmay hd hcheck
    refine ⟨now, hclock, ?_⟩
    have hminds' := hbegin.minds hminds
    -- What follows changes the trigger and the checks to come.
    dsimp only at hrest
    generalize hk₂ : (if (report.lockRemoved && k₁.requestsRefresh) = true then
      { k₁ with trigger := k₁.trigger.request } else k₁) = k₂ at hrest
    have halike : Alike k₁ k₂ := by
      rw [← hk₂]
      split <;> exact ⟨⟨rfl, rfl⟩, rfl, rfl⟩
    split at hrest
    · obtain ⟨rfl, rfl⟩ := Routine.ends_pure.mp hrest
      exact (hminds'.alike halike).alike (alike_reschedule k₂)
    · obtain ⟨rfl, rfl⟩ := Routine.ends_pure.mp hrest
      exact hminds'.alike halike

/-- A guard that is not of the held acquisition gives nothing back. -/
theorem ends_release (hl : LockGround k.lock fine) (hmay : may.Within (Calm fine k.lock.path))
    (hd : fine d) {g : LockGuard} {r : Except OsError Bool}
    (h : (k.release g).Ends may d (r, k') e) :
    SameLock k k' ∧ k'.monitor.recovered = k.monitor.recovered ∧ fine e ∧
      ((∃ j, k.ownership.holding = some j ∧ j.generation = g.generation ∧
          k'.ownership = k.ownership.cleared) ∨ (k'.ownership = k.ownership ∧ e = d)) := by
  obtain ⟨⟨r', o⟩, m, hx, hend⟩ := Routine.ends_seq.mp h
  obtain ⟨heq, rfl⟩ := Routine.ends_pure.mp hend
  cases heq
  obtain ⟨hfine, hcases⟩ := UpdateLock.ends_release hl hmay hd hx
  exact ⟨⟨rfl, rfl⟩, rfl, hfine, hcases⟩

theorem ends_releaseIfHeld (hl : LockGround k.lock fine)
    (hmay : may.Within (Calm fine k.lock.path)) (hd : fine d) {r : Except OsError Bool}
    (h : k.releaseIfHeld.Ends may d (r, k') e) :
    SameLock k k' ∧ k'.monitor.recovered = k.monitor.recovered ∧ fine e ∧
      k'.ownership = k.ownership.cleared := by
  obtain ⟨⟨r', o⟩, m, hx, hend⟩ := Routine.ends_seq.mp h
  obtain ⟨heq, rfl⟩ := Routine.ends_pure.mp hend
  cases heq
  obtain ⟨hfine, ho⟩ := UpdateLock.ends_releaseIfHeld hl hmay hd hx
  exact ⟨⟨rfl, rfl⟩, rfl, hfine, ho⟩

end Keeper

end SensorCache
