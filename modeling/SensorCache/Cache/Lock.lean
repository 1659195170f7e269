import SensorCache.Disk.Routine

/-!
# The update lock

Refreshes of one cache directory, in this process or another, exclude each other by a lock file:
whoever creates it holds the lock. A process remembers the file it created last by the time of its
creation, and each guard it hands out by its generation, so that a guard which has been superseded,
or whose file was replaced by another process, leaves the new file alone.
-/

namespace SensorCache

/-- The lock of a cache directory. -/
structure UpdateLock where
  path : Path
  deriving DecidableEq, Inhabited

/-- The right to release what one acquisition created. -/
structure LockGuard where
  generation : Nat
  deriving DecidableEq, Inhabited

/-- A process's memory of the lock file that it created last. -/
structure Holding where
  generation : Nat
  created : Instant
  deriving DecidableEq, Inhabited

/-- What a process knows of the lock: how many times it acquired it, and what it holds. -/
structure Ownership where
  generations : Nat
  holding : Option Holding
  deriving DecidableEq, Inhabited

namespace Ownership

def none : Ownership := ⟨0, Option.none⟩

/-- After an acquisition that created its file at `t`. -/
def acquired (o : Ownership) (t : Instant) : Ownership :=
  ⟨o.generations + 1, some ⟨o.generations + 1, t⟩⟩

/-- The guard of the last acquisition. -/
def guard (o : Ownership) : LockGuard := ⟨o.generations⟩

def cleared (o : Ownership) : Ownership := ⟨o.generations, Option.none⟩

/-- What is held under a guard. -/
def heldBy (o : Ownership) (g : LockGuard) : Option Holding :=
  o.holding.filter fun h => h.generation == g.generation

end Ownership

namespace UpdateLock

def fileName : String := "cache.lock"

/-- The lock of a directory. -/
def inDirectory (dir : Path) : UpdateLock := ⟨dir / ⟨fileName⟩⟩

/-- Creates the lock file, after its directory where that is missing. There is no guard when the
file is there already. -/
def tryAcquire (l : UpdateLock) (o : Ownership) :
    Routine (Except OsError (Option LockGuard) × Ownership) := do
  match ← (Disk.ensureDirectory l.path.parent).outcome with
  | .error e => return (.error e, o)
  | .ok _ =>
    match ← (Disk.createNew l.path).outcome with
    | .ok t => return (.ok (some (o.acquired t).guard), o.acquired t)
    | .error .alreadyExists => return (.ok none, o)
    | .error e => return (.error e, o)

/-- Whether anyone holds the lock. -/
def isLocked (l : UpdateLock) : Routine Bool := do return (← Disk.look l.path).isSome

/-- Whether this process remembers holding the lock, and there is a lock file. -/
def isHeld (l : UpdateLock) (o : Ownership) : Routine Bool := do
  if o.holding.isSome then l.isLocked else return false

/-- How old the lock file is at `now`; one from the future has no age yet. -/
def ageAt (l : UpdateLock) (now : Instant) : Routine (Option Time.Span) := do
  return (← Disk.look l.path).map fun n => now.since n.modified

/-- Removes the lock file, whoever created it. Tells whether there was one. -/
def remove (l : UpdateLock) : Attempt OsError Bool := do
  match ← (Disk.unlink l.path).caught with
  | .ok _ => return true
  | .error .notFound => return false
  | .error e => .fail e

/-- Removes the lock file unless it was last changed at another time than `h` was created. -/
def removeUnchanged (l : UpdateLock) (h : Holding) : Attempt OsError Bool := do
  match ← Disk.look l.path with
  | some n => if n.modified == h.created then l.remove else return false
  | none => l.remove

/-- Gives back what is held, if anything is. -/
def giveBack (l : UpdateLock) : Option Holding → Attempt OsError Bool
  | none => pure false
  | some h => l.removeUnchanged h

/-- Removes the lock file, whoever created it, and forgets what was held. -/
def forceRelease (l : UpdateLock) (o : Ownership) : Routine (Except OsError Bool × Ownership) := do
  return (← l.remove.outcome, o.cleared)

/-- Removes the lock file if this process created it. -/
def releaseIfHeld (l : UpdateLock) (o : Ownership) : Routine (Except OsError Bool × Ownership) := do
  return (← (l.giveBack o.holding).outcome, o.cleared)

/-- Removes the lock file if the guard's acquisition created it. -/
def release (l : UpdateLock) (o : Ownership) (g : LockGuard) :
    Routine (Except OsError Bool × Ownership) := do
  let held := o.heldBy g
  return (← (l.giveBack held).outcome, if held.isSome then o.cleared else o)

end UpdateLock

end SensorCache
