import SensorCache.Time.Span

/-!
# Delayed tasks

A delayed task waits for its time to come and then runs for a while, unless it is cancelled while it
waits; once it runs it may see that it was cancelled, but goes on to its end. Cancelling a task also
cancels those that were scheduled under it. Times are told by a clock that starts with the tasks.
-/

namespace SensorCache

open Time

/-- How far a delayed task has come. -/
inductive TaskPhase where
  | waits (due : Span)
  | runs (until_ : Span)
  | over
  deriving DecidableEq, Inhabited

structure DelayedTask where
  id : Nat
  /-- The tasks whose cancellation cancels this one too. -/
  above : List Nat
  /-- How long it runs. -/
  length : Span
  cancelled : Bool
  phase : TaskPhase
  deriving DecidableEq, Inhabited

namespace DelayedTask

/-- Whether the task can still come to run. -/
def isLive (t : DelayedTask) : Bool :=
  match t.phase with
  | .waits _ => !t.cancelled
  | _ => false

def isFinished (t : DelayedTask) : Bool := t.phase == .over

/-- Cancels a task. One that waits is over with it. -/
def cancel (t : DelayedTask) : DelayedTask :=
  match t.phase with
  | .waits _ => { t with cancelled := true, phase := .over }
  | _ => { t with cancelled := true }

/-- When something happens to the task next. -/
def next? (t : DelayedTask) : Option Span :=
  match t.phase with
  | .waits due => some due
  | .runs e => some e
  | .over => none

end DelayedTask

/-- All tasks that were scheduled, the latest last, and whether all of them, and any to come, are
cancelled. -/
structure Delayed where
  tasks : List DelayedTask
  stopped : Bool
  deriving DecidableEq, Inhabited

/-- What tasks do. -/
inductive TaskEvent where
  | started (task : Nat)
  | ended (task : Nat) (cancelled : Bool)
  deriving DecidableEq, Inhabited

namespace Delayed

def new : Delayed := ⟨[], false⟩

def get? (x : Delayed) (i : Nat) : Option DelayedTask := x.tasks.find? fun t => t.id == i

/-- The id that the next task gets. -/
def nextId (x : Delayed) : Nat := x.tasks.length

def update (x : Delayed) (i : Nat) (f : DelayedTask → DelayedTask) : Delayed :=
  { x with tasks := x.tasks.map fun t => if t.id = i then f t else t }

/-- The task that is scheduled under `parent`, or under none. -/
def taskUnder (x : Delayed) (parent : Option Nat) (due length : Span) : DelayedTask :=
  let t : DelayedTask := ⟨x.nextId, [], length, x.stopped, .waits due⟩
  let t :=
    match parent.bind x.get? with
    | some p => { t with above := p.id :: p.above, cancelled := p.cancelled || x.stopped }
    | none => t
  if t.cancelled then t.cancel else t

/-- Schedules a task; its id is `nextId`. -/
def schedule (x : Delayed) (parent : Option Nat) (due length : Span) : Delayed :=
  { x with tasks := x.tasks ++ [x.taskUnder parent due length] }

/-- Cancels a task and those below it. -/
def cancel (x : Delayed) (i : Nat) : Delayed :=
  { x with tasks := x.tasks.map fun t => if t.id = i || t.above.contains i then t.cancel else t }

/-- Cancels all tasks and those to come. -/
def stop (x : Delayed) : Delayed := ⟨x.tasks.map DelayedTask.cancel, true⟩

/-- Whether a task can still come to run. -/
def isLive (x : Delayed) (i : Nat) : Bool := (x.get? i).any DelayedTask.isLive

/-- Lets a task have run in no time. -/
def finish (x : Delayed) (i : Nat) : Delayed := x.update i fun t => { t with phase := .over }

/-- The first of two things to happen; of two at one time the earlier scheduled. -/
def sooner (a : Option (Nat × Span)) (t : DelayedTask) : Option (Nat × Span) :=
  match a, t.next? with
  | none, some d => some (t.id, d)
  | some (i, d), some e => if e < d then some (t.id, e) else some (i, d)
  | a, none => a

/-- The task to which something happens next, and when. -/
def next? (x : Delayed) : Option (Nat × Span) := x.tasks.foldl sooner none

/-- What happens to a task whose time has come at `now`. -/
def turn (x : Delayed) (now : Span) (i : Nat) : Delayed × List TaskEvent :=
  match x.get? i with
  | none => (x, [])
  | some t =>
    match t.phase with
    | .waits _ =>
      (x.update i fun t => { t with phase := .runs (now + t.length) }, [.started i])
    | .runs _ => (x.update i fun t => { t with phase := .over }, [.ended i t.cancelled])
    | .over => (x, [])

/-- What happens up to the time `end_`, in at most `n` turns. -/
def advance : Nat → Delayed → Span → Delayed × List TaskEvent
  | 0, x, _ => (x, [])
  | n + 1, x, end_ =>
    match x.next? with
    | none => (x, [])
    | some (i, d) =>
      if end_ < d then (x, [])
      else
        let (y, es) := x.turn d i
        let (z, fs) := advance n y end_
        (z, es ++ fs)

/-- What happens up to the time `end_`: each task has two turns at most. -/
def runUntil (x : Delayed) (end_ : Span) : Delayed × List TaskEvent :=
  advance (2 * x.tasks.length) x end_

end Delayed

end SensorCache
