import SensorCache.Refresh.Monitor
import SensorCache.Refresh.Trigger

/-!
# Keepers

A keeper has what one process needs for its refreshes beside the files on the disk: what it holds of
the lock, the monitor with its checks, the trigger, and the handles of its jobs. Several keepers may
share a disk. Each thing a keeper does is a routine, since the others may act between its operations
on the disk.
-/

namespace SensorCache

open Time

/-- What a process keeps for its refreshes. -/
structure Keeper where
  lock : UpdateLock
  ownership : Ownership
  monitor : Monitor
  trigger : Trigger
  /-- A check that removes a lock asks for a refresh. -/
  requestsRefresh : Bool
  jobs : List JobHandle
  /-- The time since the keeper began, for delays. -/
  elapsed : Span
  /-- The keeper shuts down. -/
  stopped : Bool
  deriving Inhabited

namespace Keeper

def new (lock : UpdateLock) (settings : MonitorSettings) (requestsRefresh : Bool) : Keeper :=
  ⟨lock, .none, .new settings, .new, requestsRefresh, [], .zero, false⟩

/-! ## Jobs -/

def job? (k : Keeper) (id : Nat) : Option JobHandle := k.jobs.find? fun j => j.id == id

def setJob (k : Keeper) (j : JobHandle) : Keeper :=
  { k with jobs := k.jobs.map fun h => if h.id = j.id then j else h }

def updateJob (k : Keeper) (id : Nat) (f : JobHandle → JobHandle) : Keeper :=
  { k with jobs := k.jobs.map fun h => if h.id = id then f h else h }

/-- A new job; after a shutdown it is interrupted from the start. -/
def addJob (k : Keeper) (id : Nat) (now : Instant) : Keeper :=
  let j := JobHandle.new id now
  { k with jobs := k.jobs ++ [if k.stopped then j.interrupt else j] }

/-! ## The lock and its monitor -/

def tryAcquire (k : Keeper) : Routine (Except OsError (Option LockGuard) × Keeper) := do
  let (r, o) ← k.lock.tryAcquire k.ownership
  return (r, { k with ownership := o })

def release (k : Keeper) (g : LockGuard) : Routine (Except OsError Bool × Keeper) := do
  let (r, o) ← k.lock.release k.ownership g
  return (r, { k with ownership := o })

def releaseIfHeld (k : Keeper) : Routine (Except OsError Bool × Keeper) := do
  let (r, o) ← k.lock.releaseIfHeld k.ownership
  return (r, { k with ownership := o })

/-- After a check has made its report. -/
def reported (k : Keeper) (r : MonitorReport) (o : Ownership) : Keeper :=
  let k := { k with ownership := o, monitor := k.monitor.record r }
  match k.monitor.watched with
  | some id => if r.interrupted then k.updateJob id JobHandle.interrupt else k
  | none => k

/-- Looks at the lock as if it were `now`. -/
def checkAt (k : Keeper) (now : Instant) : Routine (MonitorReport × Keeper) := do
  let (r, o) ← k.monitor.checkAt k.lock k.ownership (k.monitor.watched.bind k.job?) now
  return (r, k.reported r o)

def check (k : Keeper) : Routine (MonitorReport × Keeper) := do k.checkAt (← Disk.now)

def arm (k : Keeper) (job : Nat) : Keeper := { k with monitor := k.monitor.arm k.elapsed job }

def ensureArmed (k : Keeper) : Keeper := { k with monitor := k.monitor.ensureArmed k.elapsed }

/-- What a check does when its time has come; one that was cancelled does nothing. -/
def fire (k : Keeper) (check : Nat) : Routine Keeper := do
  if !k.monitor.checks.isLive check then return k
  else
    let (r, k) ← { k with monitor := k.monitor.begin check }.check
    let k :=
      if r.lockRemoved && k.requestsRefresh then { k with trigger := k.trigger.request } else k
    if r.lockPresent && !r.lockRemoved && !k.stopped then
      return { k with monitor := k.monitor.reschedule k.elapsed }
    else return k

/-- Cancels everything that is to come and interrupts all jobs. -/
def stop (k : Keeper) : Keeper :=
  { k with monitor := k.monitor.stop, jobs := k.jobs.map JobHandle.interrupt, stopped := true }

/-- Takes the lock for a job. One that is in the way is looked at: if it was too old, there is a
second try, and else a check is left to look at it again. -/
def acquire (k : Keeper) : Routine (Except OsError (Option LockGuard) × Keeper) := do
  match ← k.tryAcquire with
  | (.ok none, k) =>
    let (r, k) ← k.check
    if r.lockRemoved then k.tryAcquire else return (.ok none, k.ensureArmed)
  | (r, k) => return (r, k)

/-- Looks at a lock that is in the way. Tells whether it is gone; if it stays, a check is left to
look at it again. -/
def recover (k : Keeper) : Routine (Bool × Keeper) := do
  let (r, k) ← k.check
  if r.lockRemoved then return (true, k)
  else if ← k.lock.isLocked then return (false, k.ensureArmed)
  else return (true, k)

/-- The check that is due first by the time `end_`. -/
def dueCheck? (k : Keeper) (end_ : Span) : Option (Nat × Span) :=
  k.monitor.checks.next?.filter fun c => c.2 ≤ end_

end Keeper

end SensorCache
