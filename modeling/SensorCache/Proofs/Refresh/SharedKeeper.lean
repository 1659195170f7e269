import SensorCache.Proofs.Disk.Threads
import SensorCache.Proofs.Refresh.Keeping

/-!
# A keeper that tasks share

The jobs of a scheduler, its loop and the checks of its monitor share one keeper. What each of them
does with the lock is a thread here: the others may act between any two of its operations on the
disk, and between these and its accesses to the keeper. One that is left alone does what the keeper
does (`SharedLock.alone_acquire` and so on).
-/

namespace SensorCache

open Time

/-- The lock of a scheduler as its tasks know it, and how old it may get. -/
structure SharedLock where
  lock : UpdateLock
  maxAge : Span
  deriving DecidableEq, Inhabited

namespace Keeper

/-- The lock that the keeper tends. -/
def shared (k : Keeper) : SharedLock := ⟨k.lock, k.monitor.settings.maxLockAge⟩

/-- Whether a check at this time interrupts the job that is watched. -/
def blocks (k : Keeper) (clock : Instant) : Bool :=
  (k.monitor.watched.bind k.job?).any (k.monitor.interrupts clock)

/-- Interrupts the job that is watched if it is blocked. -/
def interruptBlocked (k : Keeper) (clock : Instant) : Keeper :=
  match k.monitor.watched with
  | some id => if k.blocks clock then k.updateJob id JobHandle.interrupt else k
  | none => k

/-- Another acquisition is counted. -/
def draw (k : Keeper) : Keeper :=
  { k with ownership := { k.ownership with generations := k.ownership.generations + 1 } }

def remember (k : Keeper) (h : Holding) : Keeper :=
  { k with ownership := { k.ownership with holding := some h } }

def forget (k : Keeper) : Keeper := { k with ownership := k.ownership.cleared }

def recorded (k : Keeper) (r : MonitorReport) : Keeper := { k with monitor := k.monitor.record r }

/-- Forgets what is held under a guard. -/
def forgetUnder (k : Keeper) (g : LockGuard) : Keeper :=
  if (k.ownership.heldBy g).isSome then k.forget else k

def requestAfterRemoval (k : Keeper) : Keeper :=
  if k.requestsRefresh then { k with trigger := k.trigger.request } else k

def rescheduleUnlessStopped (k : Keeper) : Keeper :=
  if k.stopped then k else { k with monitor := k.monitor.reschedule k.elapsed }

end Keeper

namespace SharedLock

/-- Creates the lock file, and has that counted and remembered. -/
def tryAcquire (c : SharedLock) : Thread Keeper (Except OsError (Option LockGuard)) := do
  match ← (Disk.ensureDirectory c.lock.path.parent).outcome with
  | .error e => return .error e
  | .ok _ =>
    match ← (Disk.createNew c.lock.path).outcome with
    | .ok t =>
      let generation := (← Thread.modify Keeper.draw).ownership.generations + 1
      let _ ← Thread.modify fun k => k.remember ⟨generation, t⟩
      return .ok (some ⟨generation⟩)
    | .error .alreadyExists => return .ok none
    | .error e => return .error e

/-- Looks at the lock as if it were `now`, and at the job that is watched. -/
def checkAt (c : SharedLock) (now : Instant) : Thread Keeper MonitorReport := do
  if ← c.lock.isLocked then
    let clock ← Disk.now
    let interrupted := (← Thread.modify fun k => k.interruptBlocked clock).blocks clock
    match ← c.lock.ageAt now with
    | some age =>
      if c.maxAge < age then
        let _ ← Thread.modify Keeper.forget
        match ← c.lock.remove.outcome with
        | .ok removed =>
          let r := ⟨true, interrupted, removed⟩
          let _ ← Thread.modify fun k => k.recorded r
          return r
        | .error _ => return ⟨true, interrupted, false⟩
      else return ⟨true, interrupted, false⟩
    | none => return ⟨true, interrupted, false⟩
  else return ⟨false, false, false⟩

def check (c : SharedLock) : Thread Keeper MonitorReport := do c.checkAt (← Disk.now)

/-- Takes the lock for a job, after a look at one that is in the way. -/
def acquire (c : SharedLock) : Thread Keeper (Except OsError (Option LockGuard)) := do
  match ← c.tryAcquire with
  | .ok none =>
    let r ← c.check
    if r.lockRemoved then c.tryAcquire
    else
      let _ ← Thread.modify Keeper.ensureArmed
      return .ok none
  | r => return r

/-- Looks at a lock that is in the way. Tells whether it is gone. -/
def recover (c : SharedLock) : Thread Keeper Bool := do
  let r ← c.check
  if r.lockRemoved then return true
  else if ← c.lock.isLocked then
    let _ ← Thread.modify Keeper.ensureArmed
    return false
  else return true

/-- What a check of the monitor does when its time has come. -/
def fire (c : SharedLock) (check : Nat) : Thread Keeper Unit := do
  let k ← Thread.modify fun k =>
    if k.monitor.checks.isLive check then { k with monitor := k.monitor.begin check } else k
  if k.monitor.checks.isLive check then
    let r ← c.check
    if r.lockRemoved then
      let _ ← Thread.modify Keeper.requestAfterRemoval
      return
    else if r.lockPresent then
      let _ ← Thread.modify Keeper.rescheduleUnlessStopped
      return
    else return
  else return

/-- Removes the lock file if the guard's acquisition created it. -/
def release (c : SharedLock) (g : LockGuard) : Thread Keeper (Except OsError Bool) := do
  let k ← Thread.modify fun k => k.forgetUnder g
  (c.lock.giveBack (k.ownership.heldBy g)).outcome

/-! ## One task at a time -/

end SharedLock

namespace Keeper

variable (k : Keeper) (clock : Instant)

@[simp] theorem lock_shared : k.shared.lock = k.lock := rfl

@[simp] theorem maxAge_shared : k.shared.maxAge = k.monitor.settings.maxLockAge := rfl

theorem ownership_interruptBlocked : (k.interruptBlocked clock).ownership = k.ownership := by
  unfold interruptBlocked
  split
  · split <;> rfl
  · rfl

/-- What a report does to the keeper is what the check did on its way. -/
theorem reported_of_blocks {r : MonitorReport} (h : r.interrupted = k.blocks clock) (o : Ownership) :
    k.reported r o = { k.interruptBlocked clock with ownership := o }.recorded r := by
  unfold reported interruptBlocked
  simp only [watched_record, h]
  cases k.monitor.watched with
  | none => rfl
  | some id =>
    dsimp only
    split <;> rfl

theorem reported_left :
    k.reported ⟨true, k.blocks clock, false⟩ k.ownership = k.interruptBlocked clock := by
  rw [reported_of_blocks k clock rfl, ← ownership_interruptBlocked k clock]
  rfl

theorem reported_forgotten (removed : Bool) :
    k.reported ⟨true, k.blocks clock, removed⟩ k.ownership.cleared =
      (k.interruptBlocked clock).forget.recorded ⟨true, k.blocks clock, removed⟩ := by
  rw [reported_of_blocks k clock rfl, ← ownership_interruptBlocked k clock]
  rfl

theorem shared_of_sameLock {k' : Keeper} (h : SameLock k k') : k'.shared = k.shared := by
  unfold shared
  rw [h.lock, h.settings]

theorem reported_absent : k.reported ⟨false, false, false⟩ k.ownership = k := by
  unfold reported
  simp only [watched_record]
  cases k.monitor.watched <;> rfl

end Keeper

namespace SharedLock

variable (k : Keeper)

theorem alone_tryAcquire : (tryAcquire k.shared).alone k = k.tryAcquire := by
  unfold tryAcquire Keeper.tryAcquire UpdateLock.tryAcquire
  simp only [Thread.alone_lift_bind, bind_assoc]
  refine bind_congr fun x => ?_
  cases x with
  | error e => rfl
  | ok _ =>
    simp only [Thread.alone_lift_bind, bind_assoc]
    refine bind_congr fun x => ?_
    cases x with
    | ok t => rfl
    | error e => cases e <;> rfl

theorem alone_checkAt (now : Instant) : (checkAt k.shared now).alone k = k.checkAt now := by
  unfold checkAt Keeper.checkAt Monitor.checkAt
  simp only [Thread.alone_lift_bind, bind_assoc, Keeper.lock_shared, Keeper.maxAge_shared]
  have hdone : ∀ {r : MonitorReport} {k₁ k₂ : Keeper}, k₁ = k₂ →
      (pure (r, k₁) : Routine (MonitorReport × Keeper)) = pure (r, k₂) := by
    rintro r k₁ k₂ rfl
    rfl
  refine bind_congr fun locked => ?_
  cases locked with
  | false => exact hdone k.reported_absent.symm
  | true =>
    simp only [if_true, Thread.alone_lift_bind, bind_assoc]
    refine bind_congr fun clock => ?_
    simp only [Thread.alone_modify_bind, Thread.alone_lift_bind]
    have hleft := hdone (r := ⟨true, k.blocks clock, false⟩) (k.reported_left clock).symm
    refine bind_congr fun age => ?_
    cases age with
    | none => exact hleft
    | some age =>
      by_cases hold : k.monitor.settings.maxLockAge < age
      · simp only [hold, if_true, Thread.alone_modify_bind, Thread.alone_lift_bind, bind_assoc,
          UpdateLock.forceRelease]
        refine bind_congr fun x => ?_
        cases x with
        | ok removed => exact hdone (k.reported_forgotten clock removed).symm
        | error e => exact hdone (k.reported_forgotten clock false).symm
      · simp only [hold, if_false]
        exact hleft

theorem alone_check : (check k.shared).alone k = k.check := by
  unfold check Keeper.check
  rw [Thread.alone_lift_bind]
  exact bind_congr fun now => alone_checkAt k now

/-- A try leaves the keeper with the same lock. -/
theorem tryAcquire_bind_congr {α : Type} {k : Keeper}
    {f g : Except OsError (Option LockGuard) × Keeper → Routine α}
    (h : ∀ r k', k'.shared = k.shared → f (r, k') = g (r, k')) :
    k.tryAcquire >>= f = k.tryAcquire >>= g := by
  unfold Keeper.tryAcquire
  simp only [bind_assoc]
  exact bind_congr fun x => h x.1 { k with ownership := x.2 } rfl

/-- So does a check. -/
theorem check_bind_congr {α : Type} {k : Keeper} {f g : MonitorReport × Keeper → Routine α}
    (h : ∀ r k', k'.shared = k.shared → f (r, k') = g (r, k')) :
    k.check >>= f = k.check >>= g := by
  unfold Keeper.check Keeper.checkAt
  simp only [bind_assoc]
  exact bind_congr fun now => bind_congr fun x =>
    h x.1 _ (k.shared_of_sameLock (k.sameLock_reported x.1 x.2))

theorem alone_acquire : (acquire k.shared).alone k = k.acquire := by
  unfold acquire Keeper.acquire
  rw [Thread.alone_bind, alone_tryAcquire]
  refine tryAcquire_bind_congr fun r k₁ hk₁ => ?_
  rcases r with e | _ | g
  · rfl
  · rw [← hk₁]
    show ((check k₁.shared >>= _).alone k₁) = _
    rw [Thread.alone_bind, alone_check]
    refine check_bind_congr fun r k₂ hk₂ => ?_
    rw [← hk₂]
    dsimp only
    split
    · exact alone_tryAcquire k₂
    · rfl
  · rfl

theorem alone_recover : (recover k.shared).alone k = k.recover := by
  unfold recover Keeper.recover
  rw [Thread.alone_bind, alone_check]
  refine check_bind_congr fun r k₁ hk₁ => ?_
  rw [← hk₁]
  dsimp only
  split
  · rfl
  · rw [Thread.alone_lift_bind]
    refine bind_congr fun locked => ?_
    cases locked <;> rfl

theorem alone_fire (id : Nat) :
    (fire k.shared id).alone k = k.fire id >>= fun k' => pure ((), k') := by
  unfold fire Keeper.fire
  rw [Thread.alone_modify_bind]
  cases k.monitor.checks.isLive id with
  | false => rfl
  | true =>
    have hbegin : ({ k with monitor := k.monitor.begin id } : Keeper).shared = k.shared := rfl
    simp only [if_true, Bool.not_true, Bool.false_eq_true, if_false, bind_assoc]
    rw [← hbegin, Thread.alone_bind, alone_check]
    refine check_bind_congr fun r k₁ hk₁ => ?_
    obtain ⟨present, interrupted, removed⟩ := r
    -- A lock that was removed is not looked at again.
    cases removed with
    | true =>
      cases hrefresh : k₁.requestsRefresh <;>
        simp [Keeper.requestAfterRemoval, hrefresh]
    | false =>
      cases present <;> cases hstopped : k₁.stopped <;>
        simp [Keeper.rescheduleUnlessStopped, hstopped]

theorem alone_release (g : LockGuard) : (release k.shared g).alone k = k.release g := by
  unfold release Keeper.release UpdateLock.release
  rw [Thread.alone_modify_bind, Thread.alone_lift]
  simp only [bind_assoc]
  refine bind_congr fun x => ?_
  unfold Keeper.forgetUnder
  split <;> rfl

end SharedLock

end SensorCache
