import SensorCache.Refresh.Scheduler

/-!
# Simulated time

A scheduler with a disk of its own, on which nobody else acts and no time is lost: while tasks can
go on they take their turns, and when none can, the time goes on to the next timer. Each turn takes
a microsecond on the disk's clock, which otherwise stands still.
-/

namespace SensorCache

open Time

structure Simulation (σ : Type) where
  scheduler : Scheduler σ
  disk : Disk

namespace Simulation

variable {σ : Type}

/-- Does a routine of the scheduler. -/
def perform {α : Type} (x : Simulation σ) (r : Scheduler σ → Routine (α × Scheduler σ)) :
    α × Simulation σ :=
  let ((a, s), d) := (r x.scheduler).run x.disk
  (a, ⟨s, d⟩)

def step (x : Simulation σ) (e : SchedulerEvent) : Simulation σ :=
  let (s, d) := (x.scheduler.step e).run x.disk
  ⟨s, d.tick ⟨1000⟩⟩

def passTo (x : Simulation σ) (t : Span) : Simulation σ :=
  { x with scheduler := x.scheduler.passTo t }

/-- Lets tasks take their turns until none can go on, but `n` turns at most. -/
def settle : Nat → Simulation σ → Simulation σ
  | 0, x => x
  | n + 1, x =>
    match x.scheduler.turn? with
    | none => x
    | some e => settle n (x.step e)

/-- Lets the time go on to `t`, from timer to timer, at most `n` of them with at most `turns` turns
each. -/
def runUntil (turns : Nat) : Nat → Span → Simulation σ → Simulation σ
  | 0, _, x => x
  | n + 1, t, x =>
    let x := x.settle turns
    match x.scheduler.nextTimer? with
    | some d => if d ≤ t then runUntil turns n t (x.passTo d) else (x.passTo t).settle turns
    | none => (x.passTo t).settle turns

/-- Lets the time go on until a job is over. -/
def runJob (turns : Nat) : Nat → Nat → Simulation σ → Simulation σ
  | 0, _, x => x
  | n + 1, id, x =>
    let x := x.settle turns
    match x.scheduler.end? id with
    | some _ => x
    | none =>
      match x.scheduler.nextTimer? with
      | some d => runJob turns n id (x.passTo d)
      | none => x

/-- Takes down the jobs that are left. -/
def killAll (x : Simulation σ) : Simulation σ :=
  x.scheduler.running.foldl (fun x t => x.step (.kill t.id)) x

/-- Waits for jobs to stop, up to `n` times, and takes down those that are left. Gives the number
of waits. -/
def awaitStop (turns : Nat) : Nat → Nat → Simulation σ → Nat × Simulation σ
  | 0, waits, x => (waits, x.killAll)
  | n + 1, waits, x =>
    if x.scheduler.running.isEmpty then (waits, x)
    else
      awaitStop turns n (waits + 1)
        (runUntil turns turns (x.scheduler.keeper.elapsed + .ofMillis 50) x)

/-- Shuts down: jobs are given five seconds to stop. Gives the number of waits for them. -/
def shutdown (turns : Nat) (x : Simulation σ) : Nat × Simulation σ :=
  let (waits, x) := awaitStop turns 100 0 ((x.step .stop).settle turns)
  (waits, x.step .releaseLeft)

end Simulation

end SensorCache
