import SensorCache.Refresh.Keeper
import SensorCache.Refresh.Target

/-!
# The scheduler

A scheduler starts refresh jobs: one at startup for the targets that need it, one every day, and one
whenever it is asked. A job takes the lock, updates its targets in order until one fails, and gives
the lock back; a job that does not get the lock does nothing.

The state is that of all its tasks together: the jobs, the loop that waits for the daily slot and
for requests, and the monitor's checks. Each task goes on in turns, from one wait to the next; a
turn is a routine, since other processes may act between its operations on the disk.
`SchedulerEvent` names all that may happen to a scheduler. How turns follow each other is not fixed
here.
-/

namespace SensorCache

open Time

/-- How a job ended that came to its end. -/
inductive RefreshOutcome where
  | completed (updated : Nat)
  | aborted (cache error : String)
  | cancelled
  /-- Another refresh had the lock. -/
  | skipped
  deriving DecidableEq, Inhabited

/-- How a job's task ended. -/
inductive JobEnd where
  | outcome (o : RefreshOutcome)
  | panicked
  /-- The task was taken down. -/
  | killed
  deriving DecidableEq, Inhabited

/-- An update that waits, with what its job is still to do. -/
structure BlockedUpdate (σ : Type) where
  guard : LockGuard
  cache : String
  updated : Nat
  rest : List (Target σ)
  deadline : Option Span
  heeds : Bool
  ready : Scene σ → Bool
  next : Woken → Course σ (Except RefreshError Nat)

/-- How far the task of a job is. -/
inductive JobPhase (σ : Type) where
  | queued (targets : List (Target σ))
  | blocked (b : BlockedUpdate σ)
  | over (e : JobEnd)

structure JobTask (σ : Type) where
  id : Nat
  phase : JobPhase σ

def JobTask.end? {σ : Type} (t : JobTask σ) : Option JobEnd :=
  match t.phase with
  | .over e => some e
  | _ => none

/-- What the loop of a scheduler waits for. -/
inductive LoopPhase where
  | starting
  /-- It waits for the daily slot `next`, which is due at `due`, and for requests. -/
  | listening (next : Moment) (due : Span)
  | stopped
  deriving DecidableEq, Inhabited

structure Scheduler (σ : Type) where
  keeper : Keeper
  executor : Executor
  /-- What the targets keep. -/
  own : σ
  settings : ScheduleSettings
  /-- How much later than the time of day the daily slot is. -/
  jitter : Span
  zone : Zone
  targets : List (Target σ)
  tasks : List (JobTask σ)
  loop : LoopPhase
  /-- The daily slot that the loop waits for, or waited for when it stopped. -/
  slot : Option Moment

namespace Scheduler

variable {σ : Type}

/-! ## Parts -/

/-- A scheduler that has nothing to do and listens to nothing. -/
def idle (keeper : Keeper) (own : σ) : Scheduler σ :=
  ⟨keeper, .new, own, {}, .zero, .utc, [], [], .stopped, none⟩

def limits (s : Scheduler σ) : CallLimits :=
  ⟨s.settings.callTimeout, s.settings.streamingTimeout⟩

def task? (s : Scheduler σ) (id : Nat) : Option (JobTask σ) := s.tasks.find? fun t => t.id == id

def setPhase (s : Scheduler σ) (id : Nat) (p : JobPhase σ) : Scheduler σ :=
  { s with tasks := s.tasks.map fun t => if t.id = id then ⟨id, p⟩ else t }

/-- How a job ended, if it is over. -/
def end? (s : Scheduler σ) (id : Nat) : Option JobEnd := (s.task? id).bind JobTask.end?

/-- The tasks of jobs that are not over. -/
def running (s : Scheduler σ) : List (JobTask σ) := s.tasks.filter fun t => t.end?.isNone

/-- Lets the keeper do a routine. -/
def keep {α : Type} (s : Scheduler σ) (r : Keeper → Routine (α × Keeper)) :
    Routine (α × Scheduler σ) := do
  let (a, k) ← r s.keeper
  return (a, { s with keeper := k })

def updateJob (s : Scheduler σ) (id : Nat) (f : JobHandle → JobHandle) : Scheduler σ :=
  { s with keeper := s.keeper.updateJob id f }

/-- The scene of a job's updates. -/
def scene (s : Scheduler σ) (j : JobHandle) : Scene σ := ⟨j, s.executor, s.own⟩

/-- After a scene was played. -/
def withScene (s : Scheduler σ) (c : Scene σ) : Scheduler σ :=
  { s with keeper := s.keeper.setJob c.job, executor := c.executor, own := c.own }

/-! ## Jobs -/

/-- The id of the job that was started last; jobs are numbered from one. -/
def lastJob (s : Scheduler σ) : Nat := s.tasks.length

/-- Starts a job for some targets. -/
def spawn (s : Scheduler σ) (targets : List (Target σ)) : Routine (Scheduler σ) := do
  let id := s.lastJob + 1
  return { s with
    keeper := s.keeper.addJob id (← Disk.now)
    tasks := s.tasks ++ [⟨id, .queued targets⟩] }

def giveBack (s : Scheduler σ) (g : LockGuard) : Routine (Scheduler σ) := do
  return (← s.keep fun k => k.release g).2

def finalState : RefreshOutcome → JobState
  | .completed _ => .completed
  | .cancelled => .cancelled
  | _ => .aborted

/-- A job that had the lock gives it back and is over. -/
def finish (s : Scheduler σ) (id : Nat) (g : LockGuard) (o : RefreshOutcome) :
    Routine (Scheduler σ) := do
  let s := s.updateJob id fun j => j.setState (finalState o)
  let s ← s.giveBack g
  let s := s.updateJob id fun j => ((j.setState .lockReleased).finish).setState .idle
  return s.setPhase id (.over (.outcome o))

/-- A job whose task ends without coming to its end: its lock is given back and it waits no more,
but its state stays as it was. -/
def breakOff (s : Scheduler σ) (id : Nat) (g : LockGuard) (e : JobEnd) : Routine (Scheduler σ) := do
  let s := s.updateJob id JobHandle.endWaiting
  return (← s.giveBack g).setPhase id (.over e)

/-- A job that did not get the lock. -/
def giveWay (s : Scheduler σ) (id : Nat) (o : RefreshOutcome) : Scheduler σ :=
  (s.updateJob id JobHandle.finish).setPhase id (.over (.outcome o))

def interrupted (s : Scheduler σ) (id : Nat) : Bool :=
  (s.keeper.job? id).any fun j => j.interrupted

/-- Lets the update of a cache go on as far as it comes. -/
def play (s : Scheduler σ) (id : Nat) (c : Course σ (Except RefreshError Nat)) :
    Routine (CourseStop σ (Except RefreshError Nat) × Scheduler σ) := do
  match s.keeper.job? id with
  | none => return (.crashed, s)
  | some j =>
    let (r, c) ← c.proceed (s.scene j)
    return (r, s.withScene c)

/-- What a job does after an update of `cache` came to a stop; `next` is how it goes on after one
that succeeded. -/
def afterUpdate (s : Scheduler σ) (id : Nat) (g : LockGuard) (cache : String) (updated : Nat)
    (rest : List (Target σ)) (r : CourseStop σ (Except RefreshError Nat))
    (next : Scheduler σ → Routine (Scheduler σ)) : Routine (Scheduler σ) :=
  match r with
  | .ended (.ok _) => next s
  | .ended (.error .cancelled) => s.finish id g .cancelled
  | .ended (.error e) => s.finish id g (.aborted cache e.message)
  | .crashed => s.breakOff id g .panicked
  | .blocked limit heeds ready next =>
    .done (s.setPhase id (.blocked ⟨g, cache, updated, rest, limit.map (s.keeper.elapsed + ·),
      heeds, ready, next⟩))

/-- Updates targets in order, after `updated` others. -/
def updateAll (id : Nat) (g : LockGuard) :
    List (Target σ) → Nat → Scheduler σ → Routine (Scheduler σ)
  | [], updated, s => s.finish id g (.completed updated)
  | t :: rest, updated, s =>
    if s.interrupted id then s.finish id g .cancelled
    else do
      let (r, s) ← s.play id (t.update s.limits)
      s.afterUpdate id g t.name updated rest r (updateAll id g rest (updated + 1))

/-- A job's first turn. -/
def begin (s : Scheduler σ) (id : Nat) (targets : List (Target σ)) : Routine (Scheduler σ) := do
  match ← s.keep Keeper.acquire with
  | (.ok (some g), s) =>
    let s := s.updateJob id fun j => j.setState .lockAcquired
    let s := { s with keeper := s.keeper.arm id }
    let s := s.updateJob id fun j => j.setState .running
    updateAll id g targets 0 s
  | (.ok none, s) => return s.giveWay id .skipped
  | (.error e, s) => return s.giveWay id (.aborted UpdateLock.fileName e.message)

/-- A job goes on after a wait. -/
def resume (s : Scheduler σ) (id : Nat) (b : BlockedUpdate σ) (w : Woken) :
    Routine (Scheduler σ) := do
  let (r, s) ← s.play id (b.next w)
  s.afterUpdate id b.guard b.cache b.updated b.rest r
    (updateAll id b.guard b.rest (b.updated + 1))

/-- Why an update that waits can go on, if it can. -/
def wake? (s : Scheduler σ) (id : Nat) (b : BlockedUpdate σ) : Option Woken :=
  match (s.keeper.job? id).bind fun j => (s.scene j).wake? b.heeds b.ready with
  | some w => some w
  | none => if b.deadline.any (· ≤ s.keeper.elapsed) then some .timeUp else none

/-- Whether it is a job's turn. -/
def jobReady (s : Scheduler σ) (t : JobTask σ) : Bool :=
  match t.phase with
  | .queued _ => true
  | .blocked b => (s.wake? t.id b).isSome
  | .over _ => false

def jobTurn (s : Scheduler σ) (id : Nat) : Routine (Scheduler σ) :=
  match (s.task? id).map JobTask.phase with
  | some (.queued targets) => s.begin id targets
  | some (.blocked b) =>
    match s.wake? id b with
    | some w => s.resume id b w
    | none => pure s
  | _ => pure s

/-- Takes down the task of a job that waits. -/
def kill (s : Scheduler σ) (id : Nat) : Routine (Scheduler σ) :=
  match (s.task? id).map JobTask.phase with
  | some (.queued _) => pure (s.setPhase id (.over .killed))
  | some (.blocked b) => s.breakOff id b.guard .killed
  | _ => pure s

/-! ## Requests -/

/-- Starts a job for all targets. -/
def runNow (s : Scheduler σ) : Routine (Scheduler σ) := s.spawn s.targets

/-- Starts a job for all targets unless a lock is in the way and stays there. Tells whether it
did. -/
def forceUpdate (s : Scheduler σ) : Routine (Bool × Scheduler σ) := do
  if ← s.keeper.lock.isLocked then
    match ← s.keep Keeper.recover with
    | (true, s) => return (true, ← s.runNow)
    | (false, s) => return (false, s)
  else return (true, ← s.runNow)

def request (s : Scheduler σ) : Scheduler σ :=
  { s with keeper := { s.keeper with trigger := s.keeper.trigger.request } }

/-! ## The loop -/

/-- How long it is from `a` to `b`, or no time if `b` is earlier. -/
def spanUntil (a b : Moment) : Span :=
  ⟨((b.unixSeconds - a.unixSeconds) * 1000000000 + b.nano - a.nano).toNat⟩

/-- Waits for a slot. -/
def listen (s : Scheduler σ) (next : Moment) : Routine (Scheduler σ) := do
  let now ← Disk.now
  return { s with
    loop := .listening next (s.keeper.elapsed + spanUntil now.toMoment next)
    slot := some next }

/-- Waits for the first slot after a moment; the loop ends if there is none that can be named. -/
def listenAfter (s : Scheduler σ) (start : Moment) : Routine (Scheduler σ) :=
  match nextFiring? s.zone start s.settings.updateTime s.jitter with
  | some next => s.listen next
  | none => pure { s with loop := .stopped }

/-- Whether it is the loop's turn. -/
def loopReady (s : Scheduler σ) : Bool :=
  match s.loop with
  | .starting => true
  | .listening _ due => s.keeper.stopped || s.keeper.trigger.pending || due ≤ s.keeper.elapsed
  | .stopped => false

/-- The later of two moments. -/
def later (a b : Moment) : Moment := if a.lt b then b else a

/-- The loop's turn: it ends at a shutdown, answers requests, or starts the daily job. The same slot
is not waited for again, even if the clock has not come to it. -/
def loopTurn (s : Scheduler σ) : Routine (Scheduler σ) := do
  match s.loop with
  | .stopped => return s
  | .starting => s.listenAfter (← Disk.now).toMoment
  | .listening next due =>
    if s.keeper.stopped then return { s with loop := .stopped }
    else
      match s.keeper.trigger.answer? with
      | some t =>
        let s := { s with keeper := { s.keeper with trigger := t } }
        (← s.forceUpdate).2.listen next
      | none =>
        if due ≤ s.keeper.elapsed then
          let s ← s.runNow
          s.listenAfter (later (← Disk.now).toMoment next)
        else return s

/-! ## Start and shutdown -/

/-- The targets that need an update. -/
def staleOf : List (Target σ) → Routine (List (Target σ))
  | [] => pure []
  | t :: r => do
    let stale ← t.requiresUpdate
    let rest ← staleOf r
    return if stale then t :: rest else rest

/-- A scheduler that has looked at a lock left behind and, if it is set to, has started a job for
the targets that need it. -/
def start (keeper : Keeper) (own : σ) (settings : ScheduleSettings) (jitter : Span) (zone : Zone)
    (targets : List (Target σ)) : Routine (Scheduler σ) := do
  let s : Scheduler σ :=
    ⟨keeper, .new, own, settings, jitter, zone, targets, [], .starting, none⟩
  let s ← if ← keeper.lock.isLocked then (do return (← s.keep Keeper.recover).2) else pure s
  if settings.updateOnStartup then
    match ← staleOf targets with
    | [] => return s
    | stale => s.spawn stale
  else return s

/-- Begins to shut down: everything to come is cancelled and all jobs are interrupted. -/
def stop (s : Scheduler σ) : Scheduler σ :=
  let k := s.keeper.stop
  { s with keeper := { k with monitor := k.monitor.disarm } }

/-- Gives back a lock that a job of this process left. -/
def releaseLeft (s : Scheduler σ) : Routine (Scheduler σ) := do
  return (← s.keep Keeper.releaseIfHeld).2

/-! ## Checks and time -/

def fire (s : Scheduler σ) (check : Nat) : Routine (Scheduler σ) := do
  return { s with keeper := ← s.keeper.fire check }

/-- The first check whose time has come. -/
def dueCheck? (s : Scheduler σ) : Option Nat := (s.keeper.dueCheck? s.keeper.elapsed).map (·.1)

/-- Lets the time of the timers go on, without a turn of any task. -/
def passTo (s : Scheduler σ) (t : Span) : Scheduler σ :=
  { s with keeper := { s.keeper with elapsed := t } }

end Scheduler

/-- What may happen to a scheduler. -/
inductive SchedulerEvent where
  | job (id : Nat)
  | loop
  | check (id : Nat)
  | force
  | request
  | run
  | kill (id : Nat)
  | stop
  | releaseLeft
  | pass (d : Span)
  deriving DecidableEq, Inhabited

namespace Scheduler

variable {σ : Type}

def step (s : Scheduler σ) : SchedulerEvent → Routine (Scheduler σ)
  | .job id => s.jobTurn id
  | .loop => s.loopTurn
  | .check id => s.fire id
  | .force => do return (← s.forceUpdate).2
  | .request => pure s.request
  | .run => s.runNow
  | .kill id => s.kill id
  | .stop => pure s.stop
  | .releaseLeft => s.releaseLeft
  | .pass d => pure (s.passTo (s.keeper.elapsed + d))

/-! ## Whose turn it is

When several tasks can go on, jobs come first, by their ids, then the loop, then the checks of the
monitor. When none can, something happens next at the first time for which one waits.
-/

/-- The task whose turn it is. -/
def turn? (s : Scheduler σ) : Option SchedulerEvent :=
  match s.tasks.find? s.jobReady with
  | some t => some (.job t.id)
  | none => if s.loopReady then some .loop else s.dueCheck?.map .check

/-- The sooner of two times. -/
def soonerOf (a b : Option Span) : Option Span :=
  match a, b with
  | some x, some y => some (if y < x then y else x)
  | some x, none => some x
  | none, y => y

/-- When the time of a job's wait is up. -/
def deadlineOf (t : JobTask σ) : Option Span :=
  match t.phase with
  | .blocked b => b.deadline
  | _ => none

def loopDue (s : Scheduler σ) : Option Span :=
  match s.loop with
  | .listening _ due => some due
  | _ => none

/-- The next time at which a task can go on. -/
def nextTimer? (s : Scheduler σ) : Option Span :=
  soonerOf ((s.tasks.map deadlineOf).foldl soonerOf none)
    (soonerOf s.loopDue (s.keeper.monitor.checks.next?.map (·.2)))

end Scheduler

end SensorCache
