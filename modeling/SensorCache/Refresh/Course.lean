import SensorCache.Disk.Routine
import SensorCache.Refresh.Executor
import SensorCache.Refresh.Job

/-!
# The course of an update

The update of one cache is part of a refresh job. Its course is a tree of what it does as the job
sees it: it looks at the scene and changes it, does operations on the disk, and may wait until its
time is up, the scene is ready, or, if it heeds that, the job is interrupted. It ends with a result,
or crashes, or waits for ever.
-/

namespace SensorCache

open Time

/-- What the update of a cache sees and changes: its job, the executor for calls of sources, and a
state `σ` of its own. -/
structure Scene (σ : Type) where
  job : JobHandle
  executor : Executor
  own : σ

/-- Why a wait ended. -/
inductive Woken where
  | timeUp
  | interrupted
  | ready
  deriving DecidableEq, Inhabited

inductive Course (σ α : Type) where
  | ends (a : α)
  | crashes
  | looks (next : Scene σ → Course σ α)
  | puts (s : Scene σ) (next : Course σ α)
  | performs (o : Disk.Op) (next : o.Answer → Course σ α)
  | waits (limit : Option Span) (heeds : Bool) (ready : Scene σ → Bool) (next : Woken → Course σ α)

namespace Course

variable {σ α β : Type}

def bind (c : Course σ α) (f : α → Course σ β) : Course σ β :=
  match c with
  | .ends a => f a
  | .crashes => .crashes
  | .looks next => .looks fun s => (next s).bind f
  | .puts s next => .puts s (next.bind f)
  | .performs o next => .performs o fun x => (next x).bind f
  | .waits limit heeds ready next => .waits limit heeds ready fun w => (next w).bind f

instance : Monad (Course σ) where
  pure := .ends
  bind := bind

/-- A routine as part of a course. -/
def ofRoutine : Routine α → Course σ α
  | .done a => .ends a
  | .step o next => .performs o fun x => ofRoutine (next x)

instance : MonadLift Routine (Course σ) where
  monadLift := ofRoutine

def look : Course σ (Scene σ) := .looks .ends

def put (s : Scene σ) : Course σ Unit := .puts s (.ends ())

def modify (f : Scene σ → Scene σ) : Course σ Unit := .looks fun s => put (f s)

/-- Waits at most for `limit`, in vain if the job is interrupted meanwhile. -/
def wait (limit : Option Span) (ready : Scene σ → Bool) : Course σ Woken :=
  .waits limit true ready .ends

/-- Changes the marks of the job. -/
def mark (f : JobHandle → JobHandle) : Course σ Unit := modify fun s => { s with job := f s.job }

/-- Changes the marks of the job with the time at which that happens. -/
def markNow (f : JobHandle → Instant → JobHandle) : Course σ Unit := do
  let now ← Disk.now
  mark fun j => f j now

def isInterrupted : Course σ Bool := do return (← look).job.interrupted

end Course

/-- Why a wait is over at once, if it is. -/
def Scene.wake? {σ : Type} (s : Scene σ) (heeds : Bool) (ready : Scene σ → Bool) : Option Woken :=
  if heeds && s.job.interrupted then some .interrupted
  else if ready s then some .ready
  else none

/-- How far a course comes before it has to wait. -/
inductive CourseStop (σ α : Type) where
  | ended (a : α)
  | crashed
  | blocked (limit : Option Span) (heeds : Bool) (ready : Scene σ → Bool)
      (next : Woken → Course σ α)

/-- How a course comes to its end when nothing else happens. -/
inductive CourseEnd (α : Type) where
  | ended (a : α)
  | crashed
  /-- It waits for ever. -/
  | stuck
  deriving DecidableEq, Inhabited

namespace Course

variable {σ α : Type}

/-- Lets a course go on until it has to wait. -/
def proceed : Course σ α → Scene σ → Routine (CourseStop σ α × Scene σ)
  | .ends a, s => .done (.ended a, s)
  | .crashes, s => .done (.crashed, s)
  | .looks next, s => (next s).proceed s
  | .puts s next, _ => next.proceed s
  | .performs o next, s => .step o fun x => (next x).proceed s
  | .waits limit heeds ready next, s =>
    match s.wake? heeds ready with
    | some w => (next w).proceed s
    | none => .done (.blocked limit heeds ready next, s)

/-- Lets a course go on to its end while nothing else changes the scene. -/
def runAlone : Course σ α → Scene σ → Routine (CourseEnd α × Scene σ)
  | .ends a, s => .done (.ended a, s)
  | .crashes, s => .done (.crashed, s)
  | .looks next, s => (next s).runAlone s
  | .puts s next, _ => next.runAlone s
  | .performs o next, s => .step o fun x => (next x).runAlone s
  | .waits limit heeds ready next, s =>
    match s.wake? heeds ready, limit with
    | some w, _ => (next w).runAlone s
    | none, some _ => (next .timeUp).runAlone s
    | none, none => .done (.stuck, s)

end Course

end SensorCache
