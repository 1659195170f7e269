import SensorCache.Refresh.Simulation

/-!
# Scripted targets

Targets for rehearsals of the scheduler. A scripted target has a behaviour for each of its updates,
the last of which repeats, and writes each update with the state of its job into a log.
-/

namespace SensorCache

open Time

/-- What a scripted target does in an update. -/
inductive Behaviour where
  | ends (r : Except RefreshError Nat)
  | crashes
  /-- Takes its time, whatever happens, and succeeds. -/
  | pauses (d : Span)
  /-- Waits for the interruption of its job, as one that waits for a source or not. -/
  | heeds (forSource : Bool)
  /-- Waits for ever. -/
  | sticks
  /-- Interrupts its own job and succeeds. -/
  | interrupts
  /-- Logs its limits and succeeds. -/
  | tells

/-- What scripted targets keep: a log, the jobs by which they were called, and how often each target
was. -/
structure Rehearsal where
  log : List String
  jobs : List Nat
  calls : Keyed Nat

namespace Rehearsal

def empty : Rehearsal := ⟨[], [], .empty⟩

def note (r : Rehearsal) (line : String) : Rehearsal := { r with log := r.log ++ [line] }

/-- After a target was called by a job. -/
def called (r : Rehearsal) (name : String) (j : JobHandle) : Rehearsal :=
  let n := (r.calls.get? name).getD 0
  { log := r.log ++ [name ++ ":" ++ j.state.name]
    jobs := if r.jobs.contains j.id then r.jobs else r.jobs ++ [j.id]
    calls := r.calls.insert name (n + 1) }

def play (limits : CallLimits) : Behaviour → Course Rehearsal (Except RefreshError Nat)
  | .ends r => pure r
  | .crashes => .crashes
  | .pauses d => .waits (some d) false (fun _ => false) fun _ => pure (.ok 1)
  | .heeds forSource => do
    if forSource then Course.markNow JobHandle.beginWaiting
    let _ ← Course.wait none fun _ => false
    if forSource then Course.mark JobHandle.endWaiting
    return .error .cancelled
  | .sticks => .waits none false (fun _ => false) fun _ => pure (.ok 1)
  | .interrupts => do
    Course.mark JobHandle.interrupt
    return .ok 1
  | .tells => do
    Course.modify fun s =>
      { s with own := s.own.note (limits.call.text ++ " " ++ limits.streaming.text) }
    return .ok 1

/-- A target that shows its behaviours one after the other and repeats the last. -/
def target (name : String) (stale : Bool) (behaviours : List Behaviour) : Target Rehearsal :=
  ⟨name, pure stale, fun limits => do
    let s ← Course.look
    let n := (s.own.calls.get? name).getD 0
    Course.put { s with own := s.own.called name s.job }
    play limits (behaviours.getD (min n (behaviours.length - 1)) (.ends (.ok 1)))⟩

end Rehearsal

end SensorCache
