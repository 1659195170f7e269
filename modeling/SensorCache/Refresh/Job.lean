import SensorCache.Disk.Basic

/-!
# Refresh jobs as others see them

Each refresh is a job with an id. Its handle tells what state the job is in, whether it was asked to
stop, and how it gets on: a job marks when it starts waiting for a source and counts its progress,
so that a slow one can be told from one that is stuck.
-/

namespace SensorCache

open Time

/-- The states of a job, in the order in which it may reach them. -/
inductive JobState where
  | idle
  | lockAcquired
  | running
  | completed
  | aborted
  | cancelled
  | lockReleased
  deriving DecidableEq, Inhabited

namespace JobState

def all : List JobState :=
  [.idle, .lockAcquired, .running, .completed, .aborted, .cancelled, .lockReleased]

def name : JobState → String
  | .idle => "idle"
  | .lockAcquired => "lock_acquired"
  | .running => "running"
  | .completed => "completed"
  | .aborted => "aborted"
  | .cancelled => "cancelled"
  | .lockReleased => "lock_released"

end JobState

/-- What is known of a job. -/
structure JobHandle where
  id : Nat
  state : JobState
  /-- The job has given its lock back, or never got one. -/
  finished : Bool
  /-- The job waits for a source. -/
  waiting : Bool
  /-- How many times the job got on. -/
  progress : Nat
  lastProgress : Instant
  /-- The job was asked to stop. -/
  interrupted : Bool
  deriving DecidableEq, Inhabited

namespace JobHandle

/-- A job that has not begun. -/
def new (id : Nat) (now : Instant) : JobHandle := ⟨id, .idle, false, false, 0, now, false⟩

def setState (j : JobHandle) (s : JobState) : JobHandle := { j with state := s }

def recordProgress (j : JobHandle) (now : Instant) : JobHandle :=
  { j with progress := j.progress + 1, lastProgress := now }

/-- Starts to wait for a source, which counts as progress. -/
def beginWaiting (j : JobHandle) (now : Instant) : JobHandle :=
  { j with waiting := true }.recordProgress now

def endWaiting (j : JobHandle) : JobHandle := { j with waiting := false }

def interrupt (j : JobHandle) : JobHandle := { j with interrupted := true }

def finish (j : JobHandle) : JobHandle := { j with finished := true }

/-- Whether the job has waited for `stall` or longer without getting on. -/
def isBlocked (j : JobHandle) (now : Instant) (stall : Span) : Bool :=
  j.waiting && stall ≤ now.since j.lastProgress

end JobHandle

end SensorCache
