import SensorCache.Proofs.Cache.LockFile
import SensorCache.Proofs.Disk.Watching
import SensorCache.Proofs.Refresh.Keeping

/-!
# What a keeper does to the lock, operation by operation

A process that takes the lock or checks it removes the file only after it has seen there a time that
was too long ago by a time that it read from the clock (`lockWatch`), and does nothing more once it
has made the file. A process that gives the lock back removes the file at most once, and then is
done (`returnWatch`). What happens to the file between two of these operations is not said here.
-/

namespace SensorCache

open Disk Time

/-! ## Watches -/

/-- What a process knows in the course of taking or checking the lock: the times that it read, when
what it saw last in the lock's place was changed, and whether it made the lock file. -/
structure LockMind where
  times : List Instant
  seen : Option Instant
  made : Bool

/-- Before anything was read or seen. -/
def LockMind.blank : LockMind := ⟨[], none, false⟩

/-- What was seen last was too old at a time that was read. -/
def LockMind.TooOld (limit : Span) (m : LockMind) : Prop :=
  ∃ now ∈ m.times, ∃ t ∈ m.seen, limit < now.since t

/-- The lock file is made as the last thing, and is removed only if it was seen to be too old. -/
def lockWatch (p : Path) (limit : Span) : Watch LockMind where
  allows m o := m.made = false ∧
    match o with
    | .now => True
    | .find _ => True
    | .makeDirectory _ => True
    | .create q => q = p
    | .remove q => q = p ∧ m.TooOld limit
    | _ => False
  note m o x :=
    ⟨(o.timeRead x).toList ++ m.times, (o.saw p x).getD m.seen, m.made || (o.made x).isSome⟩

/-- The lock file is removed once, if at all, and as the last thing. What is remembered is whether
that was tried. -/
def returnWatch (p : Path) : Watch Bool where
  allows tried o := tried = false ∧
    match o with
    | .find _ => True
    | .remove q => q = p
    | _ => False
  note tried
    | .remove _, _ => true
    | _, _ => tried

variable {p : Path} {limit : Span} {m : LockMind}

theorem concerns_of_lockWatch {o : Op} (h : (lockWatch p limit).allows m o) : o.Concerns p := by
  obtain ⟨-, h⟩ := h
  cases o with
  | remove q => exact h.1
  | _ => exact h

theorem concerns_of_returnWatch {o : Op} {tried : Bool} (h : (returnWatch p).allows tried o) :
    o.Concerns p := by
  obtain ⟨-, h⟩ := h
  cases o with
  | find q => trivial
  | remove q => exact h
  | _ => exact h.elim

section Notes

variable {o : Op} {x : o.Answer}

@[simp] theorem times_note :
    ((lockWatch p limit).note m o x).times = (o.timeRead x).toList ++ m.times := rfl

@[simp] theorem seen_note : ((lockWatch p limit).note m o x).seen = (o.saw p x).getD m.seen := rfl

@[simp] theorem made_note :
    ((lockWatch p limit).note m o x).made = (m.made || (o.made x).isSome) := rfl

end Notes

namespace UpdateLock

variable {l : UpdateLock} {o : Ownership}

/-- An acquisition ends with a guard when it has made the file. -/
theorem obeys_tryAcquire (hm : m.made = false) :
    (l.tryAcquire o).Obeys (lockWatch l.path limit)
      (fun m a => m.made = a.1.toOption.join.isSome) m := by
  have hprepare : (ensureDirectory l.path.parent).Obeys (lockWatch l.path limit)
      (fun m _ => m.made = false) m := by
    refine obeys_ensureDirectory (fun _ m hm => ?_) (fun _ m hm => ?_) _ hm
    · exact ⟨⟨hm, trivial⟩, fun _ => by simp [hm, Op.made]⟩
    · exact ⟨⟨hm, trivial⟩, fun _ => by simp [hm, Op.made]⟩
  refine Routine.Obeys.bind hprepare fun m x hm => ?_
  cases x with
  | error e => exact hm
  | ok _ =>
    have hcreate : (createNew l.path).Obeys (lockWatch l.path limit)
        (fun m x => m.made = x.toOption.isSome) m :=
      Routine.obeys_op.mpr ⟨⟨hm, rfl⟩, fun x => by simp [hm, Op.made]⟩
    refine Routine.Obeys.bind hcreate fun m y hy => ?_
    cases y with
    | ok t => exact hy
    | error e =>
      cases e with
      | alreadyExists => exact hy
      | _ => exact hy

/-- What allows the removal allows to try it. -/
theorem obeys_remove {μ : Type} {w : Watch μ} {m : μ} {after : μ → Prop}
    (hallows : w.allows m (.remove l.path)) (hnote : ∀ x, after (w.note m (.remove l.path) x)) :
    l.remove.Obeys w (fun m _ => after m) m := by
  have hunlink : (unlink l.path).Obeys w (fun m _ => after m) m := ⟨hallows, hnote⟩
  refine hunlink.caught.bind (fun m x hx => ?_) fun m x hx => ?_
  · obtain ⟨y, -, hm⟩ := hx
    split
    · exact hm
    · exact hm
    · exact hm
  · obtain ⟨y, hy, -⟩ := hx
    cases hy

/-- The file may be removed when it was seen to be too old. -/
theorem obeys_forceRelease (hm : m.made = false) (hold : m.TooOld limit) :
    (l.forceRelease o).Obeys (lockWatch l.path limit) (fun m _ => m.made = false) m := by
  have hremove : l.remove.Obeys (lockWatch l.path limit) (fun m _ => m.made = false) m :=
    obeys_remove ⟨hm, rfl, hold⟩ fun _ => by simp [hm, Op.made]
  exact Routine.Obeys.bind hremove fun _ _ hm => hm

/-- What allows the look allows to see whether there is a lock. -/
theorem obeys_isLocked {μ : Type} {w : Watch μ} {m : μ} {after : μ → Prop}
    (hallows : w.allows m (.find l.path)) (hnote : ∀ x, after (w.note m (.find l.path) x)) :
    l.isLocked.Obeys w (fun m _ => after m) m :=
  Routine.Obeys.bind (obeys_look hallows hnote) fun _ _ h => h

/-- An age is that of what was seen last. -/
theorem obeys_ageAt {now : Instant} (hm : m.made = false) (hnow : now ∈ m.times) :
    (l.ageAt now).Obeys (lockWatch l.path limit)
      (fun m age => m.made = false ∧ ∀ a ∈ age, limit < a → m.TooOld limit) m := by
  have hlook : (look l.path).Obeys (lockWatch l.path limit)
      (fun m x => m.made = false ∧ now ∈ m.times ∧ m.seen = x.map Node.modified) m :=
    obeys_look ⟨hm, trivial⟩ fun x => ⟨by simp [hm, Op.made], by simp [hnow], by simp [Op.saw]⟩
  refine Routine.Obeys.bind hlook fun m x h => ?_
  obtain ⟨hm, hnow, hseen⟩ := h
  refine ⟨hm, fun a ha hold => ?_⟩
  obtain ⟨n, rfl, rfl⟩ := Option.map_eq_some_iff.mp ha
  exact ⟨now, hnow, n.modified, hseen, hold⟩

/-- A guard that gives the lock back tries at most once to remove the file. -/
theorem obeys_release (g : LockGuard) :
    (l.release o g).Obeys (returnWatch l.path) (fun _ _ => True) false := by
  have hremove : l.remove.Obeys (returnWatch l.path) (fun _ _ => True) false :=
    obeys_remove ⟨rfl, rfl⟩ fun _ => trivial
  have hback : (l.giveBack (o.heldBy g)).Obeys (returnWatch l.path) (fun _ _ => True) false := by
    cases o.heldBy g with
    | none => trivial
    | some h =>
      have hlook : (look l.path).Obeys (returnWatch l.path) (fun tried _ => tried = false) false :=
        obeys_look ⟨rfl, trivial⟩ fun _ => rfl
      refine (Attempt.Obeys.always hlook).bind (fun m x hx => ?_) fun _ _ _ => trivial
      obtain ⟨y, -, rfl⟩ := hx
      split
      · split
        · exact hremove
        · trivial
      · exact hremove
  exact Routine.Obeys.bind hback fun _ _ _ => trivial

end UpdateLock

/-- A check removes the lock only if it saw that it was too old. -/
theorem Monitor.obeys_checkAt {n : Monitor} {l : UpdateLock} {o : Ownership} {job : Option JobHandle}
    {now : Instant} (hlimit : n.settings.maxLockAge = limit) (hm : m.made = false)
    (hnow : now ∈ m.times) :
    (n.checkAt l o job now).Obeys (lockWatch l.path limit) (fun m _ => m.made = false) m := by
  have hlocked : l.isLocked.Obeys (lockWatch l.path limit)
      (fun m _ => m.made = false ∧ now ∈ m.times) m :=
    UpdateLock.obeys_isLocked ⟨hm, trivial⟩ fun x => ⟨by simp [hm, Op.made], by simp [hnow]⟩
  refine Routine.Obeys.bind hlocked fun m locked hlooked => ?_
  split
  · have hclock : Disk.now.Obeys (lockWatch l.path limit)
        (fun m _ => m.made = false ∧ now ∈ m.times) m :=
      ⟨⟨hlooked.1, trivial⟩, fun _ => ⟨by simp [hlooked.1, Op.made], by simp [hlooked.2]⟩⟩
    refine Routine.Obeys.bind hclock fun m clock hread => ?_
    refine Routine.Obeys.bind (UpdateLock.obeys_ageAt hread.1 hread.2) fun m age hage => ?_
    obtain ⟨hm, hage⟩ := hage
    cases age with
    | none => exact hm
    | some age =>
      dsimp only
      split
      · next hold =>
        have htoo : m.TooOld limit := hage age rfl (hlimit ▸ hold)
        refine Routine.Obeys.bind (UpdateLock.obeys_forceRelease hm htoo) fun m x hm => ?_
        obtain ⟨y, o'⟩ := x
        cases y with
        | ok removed => exact hm
        | error e => exact hm
      · exact hm
  · exact hlooked.1

namespace Keeper

variable {k : Keeper}

/-- The keeper tends this lock, which may get this old. -/
structure Tends (p : Path) (limit : Span) (k : Keeper) : Prop where
  path : k.lock.path = p
  limit : k.monitor.settings.maxLockAge = limit

theorem Tends.same {k' : Keeper} (h : Tends p limit k) (hs : SameLock k k') : Tends p limit k' :=
  ⟨by rw [hs.lock, h.path], by rw [hs.settings, h.limit]⟩

variable (hk : Tends p limit k)
include hk

theorem obeys_tryAcquire (hm : m.made = false) :
    k.tryAcquire.Obeys (lockWatch p limit)
      (fun m a => m.made = a.1.toOption.join.isSome ∧ Tends p limit a.2) m := by
  obtain ⟨rfl, hlimit⟩ := hk
  exact Routine.Obeys.bind (UpdateLock.obeys_tryAcquire hm) fun m a ha => ⟨ha, rfl, hlimit⟩

theorem obeys_check (hm : m.made = false) :
    k.check.Obeys (lockWatch p limit) (fun m a => m.made = false ∧ Tends p limit a.2) m := by
  obtain ⟨rfl, hlimit⟩ := hk
  have hnow : Disk.now.Obeys (lockWatch k.lock.path limit)
      (fun m now => m.made = false ∧ now ∈ m.times) m :=
    ⟨⟨hm, trivial⟩, fun x => ⟨by simp [hm, Op.made], by simp [Op.timeRead]⟩⟩
  refine Routine.Obeys.bind hnow fun m now ⟨hm, hnow⟩ => ?_
  refine Routine.Obeys.bind (Monitor.obeys_checkAt hlimit hm hnow) fun m x hm => ⟨hm, ?_⟩
  obtain ⟨r, o⟩ := x
  exact Tends.same ⟨rfl, hlimit⟩ (sameLock_reported k r o)

theorem obeys_acquire (hm : m.made = false) :
    k.acquire.Obeys (lockWatch p limit)
      (fun m a => m.made = a.1.toOption.join.isSome ∧ Tends p limit a.2) m := by
  refine Routine.Obeys.bind (obeys_tryAcquire hk hm) fun m a ⟨hm, hk⟩ => ?_
  obtain ⟨x, k₁⟩ := a
  rcases x with e | _ | g
  · exact ⟨hm, hk⟩
  · refine Routine.Obeys.bind (obeys_check hk hm) fun m a ⟨hm, hk⟩ => ?_
    obtain ⟨r, k₂⟩ := a
    dsimp only at hk ⊢
    split
    · exact obeys_tryAcquire hk hm
    · exact ⟨hm, hk.same (alike_ensureArmed k₂).same⟩
  · exact ⟨hm, hk⟩

theorem obeys_recover (hm : m.made = false) :
    k.recover.Obeys (lockWatch p limit) (fun m a => m.made = false ∧ Tends p limit a.2) m := by
  refine Routine.Obeys.bind (obeys_check hk hm) fun m a ⟨hm, hk⟩ => ?_
  obtain ⟨r, k₁⟩ := a
  dsimp only at hk ⊢
  split
  · exact ⟨hm, hk⟩
  · have hlocked : k₁.lock.isLocked.Obeys (lockWatch p limit) (fun m _ => m.made = false) m :=
      UpdateLock.obeys_isLocked ⟨hm, trivial⟩ fun x => by simp [hm, Op.made]
    refine Routine.Obeys.bind hlocked fun m b hm => ?_
    split
    · exact ⟨hm, hk.same (alike_ensureArmed k₁).same⟩
    · exact ⟨hm, hk⟩

theorem obeys_fire (check : Nat) (hm : m.made = false) :
    (k.fire check).Obeys (lockWatch p limit) (fun m k' => m.made = false ∧ Tends p limit k') m := by
  unfold fire
  split
  · exact ⟨hm, hk⟩
  · have hbegin : Tends p limit { k with monitor := k.monitor.begin check } := ⟨hk.path, hk.limit⟩
    refine Routine.Obeys.bind (obeys_check hbegin hm) fun m a ⟨hm, hk⟩ => ?_
    obtain ⟨r, k₁⟩ := a
    -- What follows changes the trigger and the checks to come.
    dsimp only at hk ⊢
    generalize hk₂ : (if (r.lockRemoved && k₁.requestsRefresh) = true then
      { k₁ with trigger := k₁.trigger.request } else k₁) = k₂
    have htrigger : Tends p limit k₂ := by
      rw [← hk₂]
      split
      · exact ⟨hk.path, hk.limit⟩
      · exact hk
    split
    · exact ⟨hm, htrigger.same (alike_reschedule k₂).same⟩
    · exact ⟨hm, htrigger⟩

theorem obeys_release (g : LockGuard) :
    (k.release g).Obeys (returnWatch p) (fun _ a => Tends p limit a.2) false := by
  obtain ⟨rfl, hlimit⟩ := hk
  exact Routine.Obeys.bind (UpdateLock.obeys_release g) fun _ _ _ => ⟨rfl, hlimit⟩

end Keeper

end SensorCache
