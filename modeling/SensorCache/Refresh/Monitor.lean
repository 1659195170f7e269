import SensorCache.Cache.Lock
import SensorCache.Refresh.Delayed
import SensorCache.Refresh.Job
import SensorCache.Refresh.Settings

/-!
# The monitor of the lock

Every refresh that takes the lock arms a check for later, and so does whoever gives way to a lock.
A check interrupts the refresh it watches if that is blocked, removes the lock if it is too old, and
is followed by another while a lock stays. It never fails: what could not be removed is looked at
again next time.
-/

namespace SensorCache

open Time

/-- What a check found and did. -/
structure MonitorReport where
  lockPresent : Bool
  interrupted : Bool
  lockRemoved : Bool
  deriving DecidableEq, Inhabited

structure Monitor where
  settings : MonitorSettings
  /-- The job whose refresh may be interrupted. -/
  watched : Option Nat
  /-- All checks that were scheduled. -/
  checks : Delayed
  /-- The check that is to come. -/
  pending : Option Nat
  /-- How many locks were removed. -/
  recovered : Nat
  deriving DecidableEq, Inhabited

namespace Monitor

def new (settings : MonitorSettings) : Monitor := ⟨settings, none, .new, none, 0⟩

def watch (m : Monitor) (job : Nat) : Monitor := { m with watched := some job }

def cancelPending (m : Monitor) : Monitor :=
  match m.pending with
  | some i => { m with checks := m.checks.cancel i, pending := none }
  | none => m

/-- Schedules a check after the delay, which becomes the pending one. -/
def schedule (m : Monitor) (now : Span) : Monitor :=
  { m with
    checks := m.checks.schedule none (now + m.settings.delay) .zero
    pending := some m.checks.nextId }

/-- Schedules a check in the place of a pending one. -/
def reschedule (m : Monitor) (now : Span) : Monitor := m.cancelPending.schedule now

/-- Watches a job and schedules a check. -/
def arm (m : Monitor) (now : Span) (job : Nat) : Monitor := (m.watch job).reschedule now

/-- Whether there is a pending check that will come. -/
def isArmed (m : Monitor) : Bool := m.pending.any m.checks.isLive

/-- Schedules a check unless one is pending. -/
def ensureArmed (m : Monitor) (now : Span) : Monitor :=
  if m.isArmed || m.checks.stopped then m else m.schedule now

/-- Cancels the pending check. -/
def disarm (m : Monitor) : Monitor := m.cancelPending

/-- Cancels all checks for good. -/
def stop (m : Monitor) : Monitor := { m with checks := m.checks.stop }

/-- Whether a check interrupts a job. -/
def interrupts (m : Monitor) (now : Instant) (j : JobHandle) : Bool :=
  !j.finished && !j.interrupted && j.isBlocked now m.settings.stallThreshold

/-- Lets a check have its time: it is no longer pending. -/
def begin (m : Monitor) (check : Nat) : Monitor :=
  { m with checks := m.checks.finish check, pending := none }

/-- Looks at the lock as if it were `now`, and at the watched job. -/
def checkAt (m : Monitor) (l : UpdateLock) (o : Ownership) (job : Option JobHandle)
    (now : Instant) : Routine (MonitorReport × Ownership) := do
  if ← l.isLocked then
    let clock ← Disk.now
    let interrupted := job.any (m.interrupts clock)
    match ← l.ageAt now with
    | some age =>
      if m.settings.maxLockAge < age then
        match ← l.forceRelease o with
        | (.ok removed, o) => return (⟨true, interrupted, removed⟩, o)
        | (.error _, o) => return (⟨true, interrupted, false⟩, o)
      else return (⟨true, interrupted, false⟩, o)
    | none => return (⟨true, interrupted, false⟩, o)
  else return (⟨false, false, false⟩, o)

/-- Counts what a check removed. -/
def record (m : Monitor) (r : MonitorReport) : Monitor :=
  if r.lockRemoved then { m with recovered := m.recovered + 1 } else m

end Monitor

end SensorCache
